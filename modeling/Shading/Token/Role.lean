import Shading.Text.Blank

/-!
    The role of each character of a shader text.

    A character is blank, belongs to a comment, begins a token or continues one. The roles are the run
    of a small machine over the text, one character at a time with a look at the next one. The machine
    needs the look ahead for the two-character comment delimiters and for a point that begins a number.

        code ──letter──▶ word ──letter, digit, _──▶ word
        code ──digit, point before a digit──▶ number ──letter, digit, _, point──▶ number
        code ──//──▶ lineComment ──newline──▶ code
        code ──/*──▶ blockComment ──*/──▶ code

    A text can also be read as the continuation of one that ended inside a block comment: the machine
    then starts in `blockComment`. Where it ends says whether the comment is still open. -/

namespace Shading

/-- What a token is: a word, a number, or a single mark. -/
inductive Kind where
  | word
  | number
  | mark (c : Char)
  deriving DecidableEq, Repr

/-- What a character is part of. -/
inductive Role where
  | blank
  | comment
  | head (kind : Kind)
  | tail
  deriving DecidableEq, Repr

/-- Where the machine stands between two characters. `number true` is the place behind an `e` in a
    number, where a sign still belongs to the number; `opening` and `closing` stand in the middle of
    a comment delimiter. -/
inductive Place where
  | code
  | word
  | number (sign : Bool)
  | opening
  | lineComment
  | blockComment
  | closing
  deriving DecidableEq, Repr

/-- A letter of the ASCII alphabet or an underscore. -/
def beginsWord (c : Char) : Bool := c.isAlpha || c == '_'

/-- A character that continues a word. -/
def continuesWord (c : Char) : Bool := c.isAlphanum || c == '_'

/-- A character that continues a number, exponent signs apart. -/
def continuesNumber (c : Char) : Bool := c.isAlphanum || c == '_' || c == '.'

/-- The letter after which a number may carry a sign. -/
def isExponentMark (c : Char) : Bool := c == 'e' || c == 'E'

/-- Read a character outside comments that continues no token. -/
def enter (c : Char) (next : Option Char) : Role × Place :=
  if isBlank c then (.blank, .code)
  else if c == '/' && (next == some '/' || next == some '*') then (.comment, .opening)
  else if beginsWord c then (.head .word, .word)
  else if c.isDigit || c == '.' && next.any Char.isDigit then (.head .number, .number false)
  else (.head (.mark c), .code)

/-- Read one character: its role, and where the machine goes. -/
def step (place : Place) (c : Char) (next : Option Char) : Role × Place :=
  match place with
  | .code => enter c next
  | .word => if continuesWord c then (.tail, .word) else enter c next
  | .number sign =>
    if continuesNumber c then (.tail, .number (isExponentMark c))
    else if sign && (c == '+' || c == '-') then (.tail, .number false)
    else enter c next
  | .opening => (.comment, if c == '*' then .blockComment else .lineComment)
  | .lineComment => if c == '\n' then (.blank, .code) else (.comment, .lineComment)
  | .blockComment =>
    (.comment, if c == '*' && next == some '/' then .closing else .blockComment)
  | .closing => (.comment, .code)

/-- Each character of the text with its role, read from the given place. -/
def roles : Place → Text → List (Char × Role)
  | _, [] => []
  | place, c :: s => (c, (step place c s.head?).1) :: roles (step place c s.head?).2 s

/-- Where the machine stands after the text. -/
def placeAfter : Place → Text → Place
  | place, [] => place
  | place, c :: s => placeAfter (step place c s.head?).2 s

/-- The place to start from, inside a block comment or not. -/
def Place.start (inComment : Bool) : Place := if inComment then .blockComment else .code

/-- Does the text end inside a block comment? -/
def endsInComment (inComment : Bool) (s : Text) : Bool :=
  placeAfter (.start inComment) s == .blockComment

/-- The roles run along the text and change nothing in it. -/
@[simp] theorem map_fst_roles (place : Place) (s : Text) : (roles place s).map (·.1) = s := by
  induction s generalizing place with
  | nil => rfl
  | cons c s ih => simp [roles, ih]

end Shading
