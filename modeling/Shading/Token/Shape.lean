import Shading.Token

/-!
    Fixed sequences of tokens.

    A shape describes one token; a list of shapes describes tokens that stand next to each other, with
    any white space and comments between them. -/

namespace Shading

/-- The description of one token. -/
inductive Shape where
  | word (w : String)
  | number (digits : String)
  | mark (c : Char)
  deriving DecidableEq, Repr

/-- The token is as described. -/
def Shape.fits (t : Token) : Shape → Bool
  | .word w => t.isWord w
  | .number digits => t.isNumber digits
  | .mark c => t.isMark c

/-- The tokens begin as described. -/
def beginsAs : List Shape → List Token → Bool
  | [], _ => true
  | _ :: _, [] => false
  | shape :: shapes, t :: ts => shape.fits t && beginsAs shapes ts

/-- The first token of each place where the description fits. -/
def occurrences (shapes : List Shape) : List Token → List Token
  | [] => []
  | t :: ts =>
    if beginsAs shapes (t :: ts) then t :: occurrences shapes ts else occurrences shapes ts

/-- Occurrences are tokens of the list, in its order. -/
theorem occurrences_sublist (shapes : List Shape) (ts : List Token) :
    (occurrences shapes ts).Sublist ts := by
  induction ts with
  | nil => exact List.Sublist.slnil
  | cons t ts ih =>
    rw [occurrences]
    split
    · exact ih.cons_cons t
    · exact ih.cons t

end Shading
