import Shading.Proofs.Reading

/-!
    What tokens leave of a text.

    The gaps of a text are the stretches in front of its tokens and behind the last one, cut out at the
    positions that the tokens state (`gaps`). They are the gaps of the reading and its rest
    (`gaps_eq`), also where the text continues a block comment, whose tail then belongs to the first
    gap (`Reading.start`). -/

namespace Shading

/-- What stands between two positions of a text. -/
def Text.between (s : Text) (start stop : Nat) : Text := (s.dropBytes start).takeBytes (stop - start)

/-- The stretches that tokens leave of a text behind a position: in front of each token, and behind the
    last one. -/
def stretches (s : Text) (done : Nat) : List Token → List Text
  | [] => [s.dropBytes done]
  | t :: ts => s.between done t.start :: stretches s t.stop ts

/-- The gaps of a text that continues a block comment, if `inComment` says so. -/
def gaps (inComment : Bool) (s : Text) : List Text := stretches s 0 (tokensFrom inComment s)

/-- The gaps of a reading, its rest included. -/
def Reading.gaps (r : Reading) : List Text := r.pieces.map Piece.gap ++ [r.rest]

/-- The reading of a text that continues a block comment, if `inComment` says so. -/
def Reading.start (inComment : Bool) (s : Text) : Reading :=
  if inComment then (Reading.of (afterComment s)).behind (commentRest s) else Reading.of s

theorem between_append (a b c : Text) :
    Text.between (a ++ (b ++ c)) a.byteSize (a.byteSize + b.byteSize) = b := by
  rw [Text.between, Text.dropBytes_byteSize_append, Nat.add_sub_cancel_left,
    Text.takeBytes_byteSize_append]

/-- Cut out at the positions of the tokens, the stretches are the gaps of the pieces and the rest. -/
theorem stretches_locate (rest : Text) : ∀ (front : Text) (fresh : Bool) (ps : List Piece),
    stretches (front ++ Reading.text ⟨ps, rest⟩) front.byteSize (locate front.byteSize fresh ps) =
      Reading.gaps ⟨ps, rest⟩
  | front, _, [] => by
    rw [locate, stretches, Text.dropBytes_byteSize_append]
    rfl
  | front, fresh, p :: ps => by
    have ih := stretches_locate rest (front ++ (p.gap ++ p.text)) false ps
    have hfront : Text.byteSize (front ++ (p.gap ++ p.text)) =
        front.byteSize + p.gap.byteSize + p.text.byteSize := by
      rw [Text.byteSize_append, Text.byteSize_append, Nat.add_assoc]
    rw [hfront, List.append_assoc, List.append_assoc] at ih
    rw [locate, stretches, Reading.text_pieces, between_append, Token.stop, ih]
    rfl

theorem locate_behind (g rest : Text) (ps : List Piece) :
    locate 0 true ((⟨ps, rest⟩ : Reading).behind g).pieces = locate g.byteSize true ps := by
  cases ps with
  | nil => rfl
  | cons p ps =>
    simp only [Reading.behind, locate, Text.byteSize_append, Bool.true_or, Nat.zero_add]

theorem locate_shift (k : Nat) : ∀ (n : Nat) (fresh : Bool) (ps : List Piece),
    (locate n fresh ps).map (·.shift k) = locate (k + n) fresh ps
  | _, _, [] => rfl
  | n, fresh, p :: ps => by
    rw [locate, locate, List.map_cons, locate_shift, Token.shift]
    simp only [Nat.add_assoc]

/-- The tokens are those of the reading, also behind an open comment. -/
theorem tokensFrom_eq (inComment : Bool) (s : Text) :
    tokensFrom inComment s = locate 0 true (Reading.start inComment s).pieces := by
  cases inComment with
  | false => exact tokens_eq s
  | true =>
    rw [tokensFrom_true, tokens_eq, locate_shift, Nat.add_zero, Reading.start, if_pos rfl]
    exact (locate_behind _ _ _).symm

theorem Reading.text_start (inComment : Bool) (s : Text) : (Reading.start inComment s).text = s := by
  cases inComment with
  | false => exact Reading.text_of s
  | true =>
    rw [Reading.start, if_pos rfl, Reading.text_behind, Reading.text_of,
      commentRest_append_afterComment]

/-- The gaps of a text are those of its reading. -/
theorem gaps_eq (inComment : Bool) (s : Text) :
    gaps inComment s = (Reading.start inComment s).gaps := by
  have h := stretches_locate (Reading.start inComment s).rest [] true
    (Reading.start inComment s).pieces
  have htext : Reading.text ⟨(Reading.start inComment s).pieces, (Reading.start inComment s).rest⟩
      = s := Reading.text_start inComment s
  rw [List.nil_append, htext] at h
  rw [gaps, tokensFrom_eq]
  exact h

end Shading
