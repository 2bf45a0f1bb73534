import Shading.Proofs.Insertion
import Shading.Proofs.Redeclaring

/-!
    Other gaps between the same tokens.

    Change the gaps of a reading, each by itself, and let none of them win or lose its newlines
    (`KeepsLines`). The tokens then stay on their lines, only their places move (`unplaced_locate`). The
    passes along the pieces do the same with the old gaps and with the new ones, since they see no more
    of a gap than whether there is a newline in it, and no question that the tokens answer sees more. -/

namespace Shading

/-- The piece with the gap in front of it changed. -/
def Piece.regap (g : Text → Text) (p : Piece) : Piece := { p with gap := g p.gap }

/-- The reading with all its gaps changed. -/
def Reading.regap (g : Text → Text) (r : Reading) : Reading :=
  ⟨r.pieces.map (Piece.regap g), g r.rest⟩

/-- A changed gap holds a newline if it held one before. -/
def KeepsLines (g : Text → Text) : Prop := ∀ gap, (g gap).contains '\n' = gap.contains '\n'

section

variable {g : Text → Text}

/-! ### Passes along the pieces -/

theorem respell_regap {f : Piece → List Piece → Option String}
    (hf : ∀ p ps, f (p.regap g) (ps.map (Piece.regap g)) = f p ps) : ∀ ps : List Piece,
      respell f (ps.map (Piece.regap g)) = (respell f ps).map (Piece.regap g)
  | [] => rfl
  | p :: ps => by
    rw [List.map_cons, respell, respell, List.map_cons, respell_regap hf ps, hf]
    rfl

theorem newSpelling?_regap (renames : List Rename) (p : Piece) :
    newSpelling? renames (p.regap g) = newSpelling? renames p := rfl

theorem calledSpelling?_regap (renames : List Rename) (p : Piece) : ∀ ps : List Piece,
    calledSpelling? renames (p.regap g) (ps.map (Piece.regap g)) = calledSpelling? renames p ps
  | [] => rfl
  | _ :: _ => rfl

theorem KeepsLines.spot_of (h : KeepsLines g) (spot : Spot) (p : Piece) :
    spot.of (p.regap g) = spot.of p := by
  rw [Spot.of, Piece.regap, h, Spot.of]

theorem KeepsLines.redeclare_regap (h : KeepsLines g) (rules : Rules) (stage : Stage) :
    ∀ (spot : Spot) (ps : List Piece), rules.redeclare stage spot (ps.map (Piece.regap g)) =
      (rules.redeclare stage spot ps).map (Piece.regap g)
  | _, [] => rfl
  | spot, p :: ps => by
    have hword : (p.regap g).isWord = p.isWord := rfl
    rw [List.map_cons, Rules.redeclare, Rules.redeclare, List.map_cons, h.spot_of, hword,
      h.redeclare_regap]
    rfl

theorem beginsEntry_regap : ∀ ps : List Piece,
    beginsEntry (ps.map (Piece.regap g)) = beginsEntry ps
  | [] => rfl
  | [_] => rfl
  | [_, _] => rfl
  | _ :: _ :: _ :: _ => rfl

/-! ### Tokens -/

/-- Changed gaps move the tokens and change nothing else about them. -/
theorem KeepsLines.unplaced_locate (h : KeepsLines g) : ∀ (n m : Nat) (fresh : Bool) (ps : List Piece),
    (locate n fresh (ps.map (Piece.regap g))).map Token.unplaced =
      (locate m fresh ps).map Token.unplaced
  | _, _, _, [] => rfl
  | n, m, fresh, p :: ps => by
    have hline : (p.regap g).gap.contains '\n' = p.gap.contains '\n' := h p.gap
    simp only [List.map_cons, locate, hline, Token.unplaced]
    rw [h.unplaced_locate]
    rfl

theorem KeepsLines.unplaced_tokens (h : KeepsLines g) {s s' : Text}
    (hof : Reading.of s' = (Reading.of s).regap g) :
    (tokens s').map Token.unplaced = (tokens s).map Token.unplaced := by
  rw [tokens_eq, tokens_eq, hof]
  exact h.unplaced_locate 0 0 true _

end

/-! ### Questions that the tokens answer -/

section

variable {s s' : Text}

/-- A text with the same directives has the same extensions. -/
theorem hasExtension_congr (h : (pragmas s').map Pragma.statement = (pragmas s).map Pragma.statement)
    (extension : String) (behaviors : List String) :
    hasExtension extension behaviors s' = hasExtension extension behaviors s := by
  have hany : ∀ ps : List Pragma, (ps.any fun p => p.names [extension] && p.behaves behaviors) =
      (ps.map Pragma.statement).any fun x =>
        ([extension].any (·.toList == x.1)) && behaviors.any (·.toList == x.2) := by
    intro ps
    rw [List.any_map]
    rfl
  rw [hasExtension, hasExtension, hany, hany, h]

theorem fits_unplaced (t : Token) (shape : Shape) : shape.fits t.unplaced = shape.fits t := by
  cases shape <;> rfl

theorem beginsAs_unplaced : ∀ (shapes : List Shape) (ts : List Token),
    beginsAs shapes (ts.map Token.unplaced) = beginsAs shapes ts
  | [], _ => by rw [beginsAs, beginsAs]
  | _ :: _, [] => rfl
  | shape :: shapes, t :: ts => by
    rw [List.map_cons, beginsAs, beginsAs, fits_unplaced, beginsAs_unplaced]

theorem occurrences_unplaced (shapes : List Shape) (ts : List Token) :
    occurrences shapes (ts.map Token.unplaced) = (occurrences shapes ts).map Token.unplaced := by
  induction ts with
  | nil => rfl
  | cons t ts ih =>
    have hbegins := beginsAs_unplaced shapes (t :: ts)
    rw [List.map_cons] at hbegins ⊢
    rw [occurrences, occurrences, hbegins, ih]
    split <;> rfl

/-- Tokens that differ in their places alone declare the same output. -/
theorem hasOutputDeclaration_congr
    (h : (tokens s').map Token.unplaced = (tokens s).map Token.unplaced) :
    hasOutputDeclaration s' = hasOutputDeclaration s := by
  have hmap := congrArg (fun ts => (occurrences outputShape ts).isEmpty) h
  simpa [occurrences_unplaced, hasOutputDeclaration] using hmap

end

end Shading
