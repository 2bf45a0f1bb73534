import Shading.Text.Bytes
import Shading.Token.Role

/-!
    The tokens of a shader text.

    A token is a run of characters: the one that begins it and those that continue it. It knows its
    position, in bytes from the start of the text, and whether it is the first on its line, that is,
    whether a newline or nothing but the start of the text lies between it and the token before it.
    White space and comments yield no tokens, so what looks for tokens never looks into a comment. -/

namespace Shading

/-- A word, number or mark of a text, with its place. -/
structure Token where
  kind : Kind
  text : Text
  /-- The bytes in front of the token. -/
  start : Nat
  /-- No other token stands before it on its line. -/
  lineStart : Bool
  deriving DecidableEq, Repr

namespace Token

/-- The position behind the token. -/
def stop (t : Token) : Nat := t.start + t.text.byteSize

/-- The token is this very word. -/
def isWord (t : Token) (word : String) : Bool := t.kind == .word && t.text == word.toList

/-- The token is this mark. -/
def isMark (t : Token) (c : Char) : Bool := t.kind == .mark c

/-- The token is a number spelled so. -/
def isNumber (t : Token) (digits : String) : Bool :=
  t.kind == .number && t.text == digits.toList

end Token

/-- The leading characters that continue a token. -/
def tailOf : List (Char × Role) → Text
  | (c, .tail) :: s => c :: tailOf s
  | _ => []

/-- Gather the tokens of a text whose characters have their roles. `start` counts the bytes read so
    far; `fresh` says that no token has been met on the present line. -/
def gather (start : Nat) (fresh : Bool) : List (Char × Role) → List Token
  | [] => []
  | (c, role) :: s =>
    match role with
    | .head kind =>
      { kind, text := c :: tailOf s, start, lineStart := fresh } ::
        gather (start + c.utf8Size) false s
    | .tail => gather (start + c.utf8Size) fresh s
    | _ => gather (start + c.utf8Size) (fresh || c == '\n') s

/-- The tokens of a text that continues a block comment, if `inComment` says so. -/
def tokensFrom (inComment : Bool) (s : Text) : List Token :=
  gather 0 true (roles (.start inComment) s)

/-- The tokens of a text. -/
def tokens (s : Text) : List Token := tokensFrom false s

/-- What a line carries of a comment opened on an earlier line: all through the first closing
    delimiter, or the whole line when there is none. -/
def commentRest : Text → Text
  | [] => []
  | [c] => [c]
  | c :: d :: s => if c == '*' && d == '/' then [c, d] else c :: commentRest (d :: s)

/-- What a line carries after a comment opened on an earlier line. -/
def afterComment : Text → Text
  | [] => []
  | [_] => []
  | c :: d :: s => if c == '*' && d == '/' then s else afterComment (d :: s)

/-- The two halves of a line are the line. -/
theorem commentRest_append_afterComment : ∀ s : Text, commentRest s ++ afterComment s = s
  | [] => rfl
  | [c] => rfl
  | c :: d :: s => by
    by_cases h : (c == '*' && d == '/') = true
    · simp [commentRest, afterComment, h]
    · simp [commentRest, afterComment, h, commentRest_append_afterComment (d :: s)]

end Shading
