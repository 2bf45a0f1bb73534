import Shading.Text.Hidden

/-!
    Texts in quotes, for messages.

    A message shows a text between double quotes on one line: quotes and backslashes are escaped, the
    usual control characters by a letter, and any other hidden character by its code point in braces. -/

namespace Shading.Text

/-- The hexadecimal digits of a number, in small letters and without leading zeros. -/
def hexDigits (n : Nat) : Text := Nat.toDigits 16 n

/-- A character inside a quoted text. -/
def quotedChar (c : Char) : Text :=
  if c = '"' then ['\\', '"']
  else if c = '\\' then ['\\', '\\']
  else if c = '\n' then ['\\', 'n']
  else if c = '\r' then ['\\', 'r']
  else if c = '\t' then ['\\', 't']
  else if c = '\x00' then ['\\', '0']
  else if isHidden c then '\\' :: 'u' :: '\x7b' :: hexDigits c.toNat ++ ['\x7d']
  else [c]

/-- A text in quotes. -/
def quoted (s : Text) : Text := '"' :: s.flatMap quotedChar ++ ['"']

end Shading.Text
