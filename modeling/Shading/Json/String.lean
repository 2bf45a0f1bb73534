import Shading.Json.Problem
import Shading.Text.Bytes

/-!
    Reading JSON strings.

    A string is read one character at a time. Between two characters the reader stands in plain text,
    behind a backslash, inside the four hexadecimal digits of an escape, or between the two escapes of
    a surrogate pair. Both halves of a pair have to be there; a half alone is refused. -/

namespace Shading.Json

/-- Where the reader of a string stands. `hex value left lead` has read the digits of `value` and wants
    `left` more after the next one; `lead` is the first half of a pair whose second half this is. -/
inductive Inside where
  | plain
  | escape
  | hex (value left : Nat) (lead : Option Nat)
  | half (lead : Nat)
  | halfEscape (lead : Nat)
  deriving DecidableEq, Repr

/-- What a letter behind a backslash stands for. -/
def unescapeChar? (c : Char) : Option Char :=
  if c = '"' then some '"'
  else if c = '\\' then some '\\'
  else if c = '/' then some '/'
  else if c = 'b' then some '\x08'
  else if c = 'f' then some '\x0c'
  else if c = 'n' then some '\n'
  else if c = 'r' then some '\r'
  else if c = 't' then some '\t'
  else none

/-- The value of a hexadecimal digit, capital or small. -/
def hexValue? (c : Char) : Option Nat :=
  if '0' ≤ c && c ≤ '9' then some (c.toNat - '0'.toNat)
  else if 'a' ≤ c && c ≤ 'f' then some (c.toNat - 'a'.toNat + 10)
  else if 'A' ≤ c && c ≤ 'F' then some (c.toNat - 'A'.toNat + 10)
  else none

/-- The first half of a surrogate pair. -/
def isLead (n : Nat) : Bool := 0xD800 ≤ n && n ≤ 0xDBFF

/-- The second half of a surrogate pair. -/
def isTrail (n : Nat) : Bool := 0xDC00 ≤ n && n ≤ 0xDFFF

/-- The character of a surrogate pair. -/
def pairChar (lead trail : Nat) : Char :=
  Char.ofNat (0x10000 + (lead - 0xD800) * 0x400 + (trail - 0xDC00))

/-- Four bytes are left, enough for the digits of an escape. -/
def holdsFourBytes (s : Text) : Bool := 4 ≤ Text.byteSize (s.take 4)

/-- Put a character in front of what is read of a string. -/
def push (c : Char) : Except Problem (Text × Text) → Except Problem (Text × Text)
  | .ok (s, rest) => .ok (c :: s, rest)
  | .error problem => .error problem

/-- Read a string to its closing quote; answer the string and the rest of the text. -/
def readInside : Inside → Text → Except Problem (Text × Text)
  | _, [] => .error (.unfinished .string)
  | .plain, c :: rest =>
    if c = '"' then .ok ([], rest)
    else if c = '\\' then readInside .escape rest
    else if c.toNat < 0x20 then .error (.malformed .controlCharacter)
    else push c (readInside .plain rest)
  | .escape, c :: rest =>
    match unescapeChar? c with
    | some d => push d (readInside .plain rest)
    | none =>
      if c ≠ 'u' then .error (.malformed .invalidEscape)
      else if holdsFourBytes rest then readInside (.hex 0 3 none) rest
      else .error (.unfinished .string)
  | .hex value left lead, c :: rest =>
    match hexValue? c with
    | none => .error (.malformed .invalidEscape)
    | some digit =>
      let value := value * 16 + digit
      match left, lead with
      | left + 1, lead => readInside (.hex value left lead) rest
      | 0, none =>
        if isTrail value then .error (.malformed .loneSurrogate)
        else if isLead value then readInside (.half value) rest
        else push (Char.ofNat value) (readInside .plain rest)
      | 0, some first =>
        if isTrail value then push (pairChar first value) (readInside .plain rest)
        else .error (.malformed .loneSurrogate)
  | .half lead, c :: rest =>
    if c = '\\' then readInside (.halfEscape lead) rest
    else .error (.malformed .unfinishedSurrogate)
  | .halfEscape lead, c :: rest =>
    if c ≠ 'u' then .error (.malformed .unfinishedSurrogate)
    else if holdsFourBytes rest then readInside (.hex 0 3 (some lead)) rest
    else .error (.unfinished .string)

/-- Read a string behind its opening quote. -/
def readQuoted (s : Text) : Except Problem (Text × Text) := readInside .plain s

end Shading.Json
