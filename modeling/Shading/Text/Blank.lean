/-!
    Texts and blank characters.

    A text is a list of characters. A character is *blank* when it has the Unicode property
    White_Space, listed below as ranges of code points; the zero-width space, the byte order mark and
    the separators U+001C to U+001F do not have it. Trimming and splitting into words go by this
    property and by no other. -/

namespace Shading

/-- A text, character by character. -/
abbrev Text := List Char

/-- The code points of White_Space, as inclusive ranges in ascending order. -/
def blankRanges : List (Nat × Nat) :=
  [(0x0009, 0x000D), (0x0020, 0x0020), (0x0085, 0x0085), (0x00A0, 0x00A0), (0x1680, 0x1680),
   (0x2000, 0x200A), (0x2028, 0x2029), (0x202F, 0x202F), (0x205F, 0x205F), (0x3000, 0x3000)]

/-- The character has the property White_Space. -/
def isBlank (c : Char) : Bool :=
  blankRanges.any fun (low, high) => low ≤ c.toNat && c.toNat ≤ high

namespace Text

/-- The text from its first character that is not blank. -/
def trimStart (s : Text) : Text := s.dropWhile isBlank

/-- The text up to its last character that is not blank. -/
def trimEnd (s : Text) : Text := (s.reverse.dropWhile isBlank).reverse

/-- The text without the blanks at its two ends. -/
def trim (s : Text) : Text := s.trimStart.trimEnd

/-- The first run of characters that are not blank; empty when all are. -/
def firstWord (s : Text) : Text := s.trimStart.takeWhile (!isBlank ·)

/-- The text with the ASCII capitals made small. -/
def lower (s : Text) : Text := s.map Char.toLower

end Text

end Shading
