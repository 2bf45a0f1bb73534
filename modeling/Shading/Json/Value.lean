import Shading.Text.Blank

/-!
    JSON values and their compact text.

    The compact text has no blanks outside strings. In a string a quote, a backslash and the control
    characters below U+0020 are escaped, five of them by a letter and the others by four hexadecimal
    digits; every other character stands for itself. -/

namespace Shading.Json

/-- The JSON values that the library writes. -/
inductive Value where
  | null
  | string (s : Text)
  | list (items : List Value)
  | object (members : List (String × Value))

/-- A hexadecimal digit below sixteen. -/
def hexDigit (n : Nat) : Char := "0123456789abcdef".toList.getD n '0'

/-- What a character becomes in a string. -/
def escapeChar (c : Char) : Text :=
  if c = '"' then ['\\', '"']
  else if c = '\\' then ['\\', '\\']
  else if c = '\n' then ['\\', 'n']
  else if c = '\r' then ['\\', 'r']
  else if c = '\t' then ['\\', 't']
  else if c = '\x08' then ['\\', 'b']
  else if c = '\x0c' then ['\\', 'f']
  else if c.toNat < 0x20 then
    ['\\', 'u', '0', '0', hexDigit (c.toNat / 16), hexDigit (c.toNat % 16)]
  else [c]

/-- A text as a JSON string, quotes included. -/
def quote (s : Text) : Text := '"' :: s.flatMap escapeChar ++ ['"']

/-- Texts with a comma between each two. -/
def commaSeparated : List Text → Text
  | [] => []
  | [s] => s
  | s :: rest => s ++ ',' :: commaSeparated rest

mutual

/-- The compact text of a value. -/
def Value.compact : Value → Text
  | .null => "null".toList
  | .string s => quote s
  | .list items => '[' :: commaSeparated (compactItems items) ++ [']']
  | .object members => '\x7b' :: commaSeparated (compactMembers members) ++ ['\x7d']

/-- The compact texts of the items of a list. -/
def compactItems : List Value → List Text
  | [] => []
  | item :: rest => item.compact :: compactItems rest

/-- The compact texts of the members of an object. -/
def compactMembers : List (String × Value) → List Text
  | [] => []
  | (key, value) :: rest => (quote key.toList ++ ':' :: value.compact) :: compactMembers rest

end

end Shading.Json
