import Shading.Json.Number
import Shading.Json.Skip

/-!
    Reading JSON values of a known kind.

    A reader takes a text and answers a value with the rest of the text, or the first problem from the
    left. Readers skip the blanks in front of a value. -/

namespace Shading.Json

/-- What reads a value from the front of a text. -/
abbrev Reader (α : Type) := Text → Except Problem (α × Text)

/-- Read the rest of a literal whose first letter is read. -/
def readLiteral : Text → Text → Except Problem Text
  | [], s => .ok s
  | _ :: _, [] => .error (.unfinished .value)
  | d :: ds, c :: s => if c = d then readLiteral ds s else .error (.malformed .expectedLiteral)

/-- What the value at the front of a text is. -/
def found (s : Text) : Except Problem Found :=
  match s with
  | 'n' :: rest => (readLiteral "ull".toList rest).map fun _ => .null
  | 't' :: rest => (readLiteral "rue".toList rest).map fun _ => .boolean true
  | 'f' :: rest => (readLiteral "alse".toList rest).map fun _ => .boolean false
  | '"' :: rest => (readQuoted rest).map fun (value, _) => .string value
  | '[' :: _ => .ok .list
  | '\x7b' :: _ => .ok .object
  | '-' :: rest => numberFound false rest
  | c :: rest =>
    if c.isDigit then numberFound true (c :: rest) else .error (.malformed .expectedValue)
  | [] => .error (.unfinished .value)

/-- The problem with a value that is not what is expected. -/
def unexpected (expected : String) (s : Text) : Problem :=
  match found s with
  | .ok value => .mismatch (.wrongType value expected)
  | .error problem => problem

/-- Read a string, which is named so when it is missing. -/
def readString (expected : String) : Reader Text := fun s =>
  match skipBlank s with
  | [] => .error (.unfinished .value)
  | '"' :: rest => readQuoted rest
  | other => .error (unexpected expected other)

/-- Read `null`. -/
def readNull (s : Text) : Except Problem Text :=
  match skipBlank s with
  | [] => .error (.unfinished .value)
  | 'n' :: rest => readLiteral "ull".toList rest
  | other => .error (unexpected "unit" other)

/-- Read a value or `null`. -/
def readOptional (value : Reader α) : Reader (Option α) := fun s =>
  match skipBlank s with
  | 'n' :: rest => (readLiteral "ull".toList rest).map fun rest => (none, rest)
  | other => (value other).map fun (a, rest) => (some a, rest)

/-- Read the colon behind a key. -/
def readColon (s : Text) : Except Problem Text :=
  match skipBlank s with
  | [] => .error (.unfinished .object)
  | ':' :: rest => .ok rest
  | _ => .error (.malformed .expectedColon)

/-! ### Lists -/

/-- What comes next in a list or an object: its end, or an item. -/
inductive Next where
  | close (rest : Text)
  | item (s : Text)

/-- Look for the next item of a list. -/
def nextItem (first : Bool) (s : Text) : Except Problem Next :=
  match skipBlank s with
  | [] => .error (.unfinished .list)
  | c :: rest =>
    if c = ']' then .ok (.close rest)
    else if first then .ok (.item (c :: rest))
    else if c ≠ ',' then .error (.malformed .expectedListComma)
    else match skipBlank rest with
      | [] => .error (.unfinished .value)
      | d :: rest =>
        if d = ']' then .error (.malformed .trailingComma) else .ok (.item (d :: rest))

/-- Read the items of a list. Every item takes a character at least, so the length of the text bounds
    their number. -/
def readItems (item : Reader α) : Nat → Bool → Reader (List α)
  | 0, _, _ => .error (.unfinished .list)
  | bound + 1, first, s =>
    match nextItem first s with
    | .error problem => .error problem
    | .ok (.close rest) => .ok ([], rest)
    | .ok (.item s) =>
      match item s with
      | .error problem => .error problem
      | .ok (a, rest) => (readItems item bound false rest).map fun (as, rest) => (a :: as, rest)

/-- Read a list. -/
def readList (item : Reader α) : Reader (List α) := fun s =>
  match skipBlank s with
  | [] => .error (.unfinished .value)
  | '[' :: rest => readItems item (rest.length + 1) true rest
  | other => .error (unexpected "a sequence" other)

/-- Read the end of a list that may hold no further item. -/
def readListEnd (s : Text) : Except Problem Text :=
  match skipBlank s with
  | [] => .error (.unfinished .list)
  | ']' :: rest => .ok rest
  | ',' :: rest =>
    match skipBlank rest with
    | ']' :: _ => .error (.malformed .trailingComma)
    | _ => .error (.malformed .trailingCharacters)
  | _ => .error (.malformed .trailingCharacters)

/-! ### Objects -/

/-- Look for the next member of an object; its text begins behind the quote of the key. -/
def nextMember (first : Bool) (s : Text) : Except Problem Next :=
  match skipBlank s with
  | [] => .error (.unfinished .object)
  | c :: rest =>
    if c = '\x7d' then .ok (.close rest)
    else if first then
      if c = '"' then .ok (.item rest) else .error (.malformed .keyNotString)
    else if c ≠ ',' then .error (.malformed .expectedObjectComma)
    else match skipBlank rest with
      | [] => .error (.unfinished .value)
      | d :: rest =>
        if d = '"' then .ok (.item rest)
        else if d = '\x7d' then .error (.malformed .trailingComma)
        else .error (.malformed .keyNotString)

/-! ### Choices -/

/-- The choice of a name. -/
def choose (choices : List (String × α)) (name : Text) : Except Problem α :=
  match choices.find? fun choice => choice.1.toList == name with
  | some (_, a) => .ok a
  | none => .error (.mismatch (.unknownVariant name (choices.map (·.1))))

/-- Read one of some choices: its name, or an object with the name as its only key and `null` as the
    value. -/
def readChoice (choices : List (String × α)) : Reader α := fun s =>
  match skipBlank s with
  | [] => .error (.unfinished .value)
  | '"' :: rest => do
    let (name, rest) ← readQuoted rest
    let a ← choose choices name
    return (a, rest)
  | '\x7b' :: rest => do
    match ← nextMember true rest with
    | .close _ => .error (.malformed .expectedValue)
    | .item rest =>
      let (name, rest) ← readQuoted rest
      let a ← choose choices name
      let rest ← readNull (← readColon rest)
      match skipBlank rest with
      | [] => .error (.unfinished .object)
      | '\x7d' :: rest => .ok (a, rest)
      | _ => .error (.malformed .expectedValue)
  | _ => .error (.malformed .expectedValue)

/-! ### Whole texts -/

/-- Read a text that holds one value and blanks around it. -/
def readAll (value : Reader α) (s : Text) : Except Problem α :=
  match value s with
  | .error problem => .error problem
  | .ok (a, rest) =>
    if (skipBlank rest).isEmpty then .ok a else .error (.malformed .trailingCharacters)

end Shading.Json
