import Shading.Text.Quoted

/-!
    What can be wrong with a JSON text.

    A text can end too early, be malformed, or be well formed so far and hold something else than what
    is asked for. Reading stops at the first problem from the left. -/

namespace Shading.Json

/-- What a text ends in the middle of. -/
inductive Unfinished where
  | value
  | list
  | object
  | string
  deriving DecidableEq, Repr

/-- How a text is malformed. -/
inductive Fault where
  | expectedValue
  | expectedLiteral
  | expectedListComma
  | expectedObjectComma
  | expectedColon
  | keyNotString
  | trailingComma
  | trailingCharacters
  | controlCharacter
  | invalidEscape
  | loneSurrogate
  | unfinishedSurrogate
  | invalidNumber
  | numberOutOfRange
  deriving DecidableEq, Repr

/-- A value that is not what is asked for. -/
inductive Found where
  | null
  | boolean (b : Bool)
  | integer (n : Int)
  | decimal (digits : Text)
  | string (s : Text)
  | list
  | object
  deriving DecidableEq, Repr

/-- How well-formed values are not what is asked for. -/
inductive Mismatch where
  | wrongType (found : Found) (expected : String)
  | unknownVariant (name : Text) (known : List String)
  | missingField (name : String)
  | duplicateField (name : String)
  | wrongLength (length : Nat) (expected : String)
  deriving DecidableEq, Repr

/-- What is wrong with a text. -/
inductive Problem where
  | unfinished (what : Unfinished)
  | malformed (fault : Fault)
  | mismatch (how : Mismatch)
  deriving DecidableEq, Repr

/-! ### Wording -/

def Unfinished.message : Unfinished → String
  | .value => "EOF while parsing a value"
  | .list => "EOF while parsing a list"
  | .object => "EOF while parsing an object"
  | .string => "EOF while parsing a string"

def Fault.message : Fault → String
  | .expectedValue => "expected value"
  | .expectedLiteral => "expected ident"
  | .expectedListComma => "expected `,` or `]`"
  | .expectedObjectComma => "expected `,` or `\x7d`"
  | .expectedColon => "expected `:`"
  | .keyNotString => "key must be a string"
  | .trailingComma => "trailing comma"
  | .trailingCharacters => "trailing characters"
  | .controlCharacter =>
    "control character (\\u0000-\\u001F) found while parsing a string"
  | .invalidEscape => "invalid escape"
  | .loneSurrogate => "lone leading surrogate in hex escape"
  | .unfinishedSurrogate => "unexpected end of hex escape"
  | .invalidNumber => "invalid number"
  | .numberOutOfRange => "number out of range"

/-- A found value in words. -/
def Found.describe : Found → String
  | .null => "null"
  | .boolean b => "boolean `" ++ (if b then "true" else "false") ++ "`"
  | .integer n => "integer `" ++ toString n ++ "`"
  | .decimal digits => "floating point `" ++ String.ofList digits ++ "`"
  | .string s => "string " ++ String.ofList s.quoted
  | .list => "sequence"
  | .object => "map"

/-- The known names as alternatives. -/
def alternatives : List String → String
  | [] => "there are no variants"
  | [a] => "`" ++ a ++ "`"
  | [a, b] => "`" ++ a ++ "` or `" ++ b ++ "`"
  | names => "one of " ++ String.intercalate ", " (names.map fun name => "`" ++ name ++ "`")

def Mismatch.message : Mismatch → String
  | .wrongType found expected => "invalid type: " ++ found.describe ++ ", expected " ++ expected
  | .unknownVariant name known =>
    "unknown variant `" ++ String.ofList name ++ "`, expected " ++ alternatives known
  | .missingField name => "missing field `" ++ name ++ "`"
  | .duplicateField name => "duplicate field `" ++ name ++ "`"
  | .wrongLength length expected =>
    "invalid length " ++ toString length ++ ", expected " ++ expected

/-- The wording of a problem. -/
def Problem.message : Problem → String
  | .unfinished what => what.message
  | .malformed fault => fault.message
  | .mismatch how => how.message

end Shading.Json
