import Shading.Proofs.Chunks
import Shading.Proofs.Lines

/-!
    The tokens of a physical line.

    The tokens that begin on the first line of a text are those of that line read by itself, and the
    tokens on a later line are those of the rest of the text, shifted. -/

namespace Shading

theorem start_lt_of_mem_gather {t : Token} : ∀ {n : Nat} {fresh : Bool} {R : List (Char × Role)},
    t ∈ gather n fresh R → t.start < n + Text.byteSize (R.map (·.1))
  | n, fresh, [], h => absurd h List.not_mem_nil
  | n, fresh, (c, .head kind) :: R, h => by
    have hc := c.utf8Size_pos
    simp only [List.map_cons, Text.byteSize_cons]
    rw [gather, List.mem_cons] at h
    rcases h with rfl | h
    · show n < _
      omega
    · have ih := start_lt_of_mem_gather h
      omega
  | n, fresh, (c, .tail) :: R, h => by
    have ih := start_lt_of_mem_gather (by simpa only [gather] using h)
    simp only [List.map_cons, Text.byteSize_cons]
    omega
  | n, fresh, (c, .blank) :: R, h => by
    have ih := start_lt_of_mem_gather (by simpa only [gather] using h)
    simp only [List.map_cons, Text.byteSize_cons]
    omega
  | n, fresh, (c, .comment) :: R, h => by
    have ih := start_lt_of_mem_gather (by simpa only [gather] using h)
    simp only [List.map_cons, Text.byteSize_cons]
    omega

/-- A token begins inside the text. -/
theorem start_lt_of_mem {inComment : Bool} {s : Text} {t : Token} (h : t ∈ tokensFrom inComment s) :
    t.start < s.byteSize := by
  have hlt := start_lt_of_mem_gather h
  rwa [map_fst_roles, Nat.zero_add] at hlt

/-- The tokens that begin on one physical line of a text. -/
def tokensOn (inComment : Bool) (s : Text) (line : Nat) : List Token :=
  (tokensFrom inComment s).filter fun t => s.lineNumber t.start == line

theorem tokensOn_last (inComment : Bool) {l : Text} (h : '\n' ∉ l) :
    tokensOn inComment l 0 = tokensFrom inComment l := by
  rw [tokensOn, List.filter_eq_self]
  intro t _
  rw [Text.lineNumber_eq_zero h, beq_self_eq_true]

theorem tokensOn_zero (inComment : Bool) {l : Text} (h : '\n' ∉ l) (s : Text) :
    tokensOn inComment ((l ++ ['\n']) ++ s) 0 = tokensFrom inComment (l ++ ['\n']) := by
  rw [tokensOn, tokensFrom_newline_append, List.filter_append, List.filter_eq_self.mpr,
    List.filter_eq_nil_iff.mpr, List.append_nil]
  · intro t ht
    obtain ⟨t, -, rfl⟩ := List.mem_map.mp ht
    rw [Token.shift, Text.lineNumber_add h]
    simp
  · intro t ht
    rw [Text.lineNumber_line_append h s (start_lt_of_mem ht), beq_self_eq_true]

theorem tokensOn_succ (inComment : Bool) {l : Text} (h : '\n' ∉ l) (s : Text) (line : Nat) :
    tokensOn inComment ((l ++ ['\n']) ++ s) (line + 1) =
      (tokensOn (endsInComment inComment (l ++ ['\n'])) s line).map
        (·.shift (Text.byteSize (l ++ ['\n']))) := by
  have hshift : ((fun t : Token => ((l ++ ['\n']) ++ s).lineNumber t.start == line + 1) ∘
      (·.shift (Text.byteSize (l ++ ['\n'])))) = fun t : Token => s.lineNumber t.start == line := by
    funext t
    rw [Function.comp_apply, Token.shift, Text.lineNumber_add h, Bool.eq_iff_iff, beq_iff_eq,
      beq_iff_eq, Nat.succ_inj]
  rw [tokensOn, tokensFrom_newline_append, List.filter_append, List.filter_eq_nil_iff.mpr,
    List.nil_append, List.filter_map, hshift, tokensOn]
  intro t ht
  rw [Text.lineNumber_line_append h s (start_lt_of_mem ht)]
  simp

end Shading
