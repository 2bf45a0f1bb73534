import Shading.Proofs.Pruning

/-!
    What pruning has to keep.

    Of a text there are to be kept: the tokens on all lines but those of a deleted directive, the
    characters outside all deleted stretches, each with whether it is met in a comment, and the other
    directives. All three are found line by line. -/

namespace Shading

/-! ### Characters in comments -/

/-- The machine stands behind the character that begins a comment, and in front of its end. -/
def Place.isComment : Place → Bool
  | .opening => true
  | .lineComment => true
  | .blockComment => true
  | .closing => true
  | _ => false

/-- The characters of a text that stands behind `n` bytes, each with its position and whether it is met
    in a comment. -/
def placed : Nat → Place → Text → List (Nat × Char × Bool)
  | _, _, [] => []
  | n, place, c :: s =>
    (n, c, place.isComment) :: placed (n + c.utf8Size) (step place c s.head?).2 s

/-- Where a character is met depends only on what stands in front of it. -/
theorem placed_append (b : Text) : ∀ (n : Nat) (place : Place) (a : Text),
    placed n place (a ++ b) =
      placed n place a ++ placed (n + a.byteSize) (partPlace place a b.head?) b
  | _, _, [] => rfl
  | n, place, [c] => rfl
  | n, place, c :: d :: a => by
    have ih := placed_append b (n + c.utf8Size) (step place c (some d)).2 (d :: a)
    rw [Nat.add_assoc] at ih
    exact congrArg _ ih

theorem placed_shift (k : Nat) : ∀ (n : Nat) (place : Place) (s : Text),
    placed (k + n) place s = (placed n place s).map fun x => (k + x.1, x.2)
  | _, _, [] => rfl
  | n, place, c :: s => by
    rw [placed, placed, List.map_cons, Nat.add_assoc, placed_shift k]

theorem placed_newline_append (inComment : Bool) (l s : Text) :
    placed 0 (.start inComment) ((l ++ ['\n']) ++ s) =
      placed 0 (.start inComment) (l ++ ['\n']) ++
        (placed 0 (.start (endsInComment inComment (l ++ ['\n']))) s).map
          fun x => (Text.byteSize (l ++ ['\n']) + x.1, x.2) := by
  rw [placed_append, partPlace_newline, placeAfter_newline, Nat.zero_add, ← placed_shift,
    Nat.add_zero]

/-- Positions lie in the text. -/
theorem bounds_of_mem_placed {x : Nat × Char × Bool} : ∀ {n : Nat} {place : Place} {s : Text},
    x ∈ placed n place s → n ≤ x.1 ∧ x.1 < n + s.byteSize
  | _, _, [], h => absurd h List.not_mem_nil
  | n, place, c :: s, h => by
    have hc := c.utf8Size_pos
    rw [Text.byteSize_cons]
    rcases List.mem_cons.mp h with rfl | h
    · exact ⟨Nat.le_refl n, by show n < _; omega⟩
    · obtain ⟨hle, hlt⟩ := bounds_of_mem_placed h
      exact ⟨by omega, by omega⟩

/-! ### What pruning keeps -/

/-- The numbers of the physical lines on which a directive is deleted. -/
def prunedLines (extensions : List String) (inComment : Bool) (s : Text) : List Nat :=
  (prunedFrom extensions inComment s).map fun p => s.lineNumber p.start

/-- The tokens on all other lines. -/
def keptTokens (extensions : List String) (inComment : Bool) (s : Text) : List Token :=
  (tokensFrom inComment s).filter fun t =>
    !(prunedLines extensions inComment s).contains (s.lineNumber t.start)

/-- The position lies in the stretch that pruning deletes. -/
def Pragma.covers (p : Pragma) (position : Nat) : Bool := p.start ≤ position && position < p.stop

/-- The characters outside all deleted stretches. -/
def keptCharacters (extensions : List String) (inComment : Bool) (s : Text) :
    List (Nat × Char × Bool) :=
  (placed 0 (.start inComment) s).filter fun x =>
    !(prunedFrom extensions inComment s).any (·.covers x.1)

/-- The directives that pruning does not delete. -/
def keptPragmas (extensions : List String) (inComment : Bool) (s : Text) : List Pragma :=
  (pragmasFrom inComment s).filter fun p => !(p.names extensions && p.behaves Pragma.switchedOn)

section

variable {extensions : List String} {inComment : Bool}

/-! ### What is kept where nothing is deleted -/

theorem keptTokens_of_nil {s : Text} (h : prunedFrom extensions inComment s = []) :
    keptTokens extensions inComment s = tokensFrom inComment s := by
  rw [keptTokens, prunedLines, h, List.filter_eq_self]
  exact fun _ _ => rfl

theorem keptCharacters_of_nil {s : Text} (h : prunedFrom extensions inComment s = []) :
    keptCharacters extensions inComment s = placed 0 (.start inComment) s := by
  rw [keptCharacters, h, List.filter_eq_self]
  exact fun _ _ => rfl

theorem keptPragmas_of_nil {s : Text} (h : prunedFrom extensions inComment s = []) :
    keptPragmas extensions inComment s = pragmasFrom inComment s := by
  rw [prunedFrom, List.filter_eq_nil_iff] at h
  rw [keptPragmas, List.filter_eq_self]
  intro p hp
  rw [Bool.eq_false_iff.mpr (h p hp)]
  rfl

/-! ### What is kept of a line with a deleted directive -/

theorem Opens.start_lt {lead line : Text} {p : Pragma} (h : Opens inComment lead line p) :
    p.start < line.byteSize := by
  obtain ⟨back, hcut⟩ := h.cut
  have hsize := congrArg Text.byteSize hcut
  have hc := '#'.utf8Size_pos
  rw [Text.byteSize_append, Text.byteSize_cons] at hsize
  rw [h.start]
  split <;> omega

theorem keptTokens_of_opens {line lead : Text} {p : Pragma} (hline : line.firstLine = line)
    (hone : prunedFrom extensions inComment line = [p]) (hopens : Opens inComment lead line p) :
    keptTokens extensions inComment line = [] := by
  rw [keptTokens, prunedLines, hone, List.filter_eq_nil_iff]
  intro t ht
  rw [List.map_singleton, Text.lineNumber_line hline (start_lt_of_mem ht),
    Text.lineNumber_line hline hopens.start_lt]
  decide

theorem keptCharacters_of_opens {line lead : Text} {p : Pragma}
    (hone : prunedFrom extensions inComment line = [p]) (hopens : Opens inComment lead line p) :
    keptCharacters extensions inComment line = placed 0 (.start inComment) (kept lead) := by
  obtain ⟨old, hcut⟩ := hopens.exists_kept
  have hplaced := placed_append old 0 (.start inComment) (kept lead)
  rw [← hcut, Nat.zero_add] at hplaced
  have hstart := hopens.start_eq
  have hstop := hopens.stop
  rw [hcut, Text.byteSize_append] at hstop
  rw [keptCharacters, hone, hplaced, List.filter_append, List.filter_eq_self.mpr,
    List.filter_eq_nil_iff.mpr, List.append_nil]
  · intro x hx
    obtain ⟨hle, hlt⟩ := bounds_of_mem_placed hx
    simp [Pragma.covers, hstart, hstop, hle, hlt]
  · intro x hx
    obtain ⟨-, hlt⟩ := bounds_of_mem_placed hx
    rw [Nat.zero_add] at hlt
    simp [Pragma.covers, hstart, hlt]

theorem keptPragmas_of_opens {line : Text} {p : Pragma} (hline : line.firstLine = line)
    (hone : prunedFrom extensions inComment line = [p]) :
    keptPragmas extensions inComment line = [] := by
  rcases pragmasFrom_line inComment hline with h | ⟨lead, q, h, -⟩
  · rw [prunedFrom, h] at hone
    exact absurd hone (List.cons_ne_nil p []).symm
  · rw [keptPragmas, h]
    rw [prunedFrom, h, List.filter_cons] at hone
    split at hone
    next hq => rw [List.filter_cons, hq]; rfl
    next => exact absurd hone (List.cons_ne_nil p []).symm

/-! ### What is kept of a first line and of the rest -/

theorem start_lt_of_mem_prunedFrom {line : Text} {p : Pragma} (hline : line.firstLine = line)
    (h : p ∈ prunedFrom extensions inComment line) : p.start < line.byteSize := by
  obtain ⟨lead, hopens⟩ := opens_of_mem_prunedFrom hline h
  exact hopens.start_lt

theorem stop_of_mem_prunedFrom {line : Text} {p : Pragma} (hline : line.firstLine = line)
    (h : p ∈ prunedFrom extensions inComment line) : p.stop = line.byteSize := by
  obtain ⟨lead, hopens⟩ := opens_of_mem_prunedFrom hline h
  exact hopens.stop

end

section

variable (extensions : List String) (inComment : Bool)

theorem keptPragmas_newline_append (l s : Text) :
    keptPragmas extensions inComment ((l ++ ['\n']) ++ s) =
      keptPragmas extensions inComment (l ++ ['\n']) ++
        (keptPragmas extensions (endsInComment inComment (l ++ ['\n'])) s).map
          (Pragma.shift (Text.byteSize (l ++ ['\n']))) := by
  rw [keptPragmas, pragmasFrom_newline_append, List.filter_append, List.filter_map]
  rfl

variable {l : Text} (hl : '\n' ∉ l) (s : Text)
include hl

theorem prunedLines_newline_append :
    prunedLines extensions inComment ((l ++ ['\n']) ++ s) =
      prunedLines extensions inComment (l ++ ['\n']) ++
        (prunedLines extensions (endsInComment inComment (l ++ ['\n'])) s).map (· + 1) := by
  have hline := Text.firstLine_newline hl
  rw [prunedLines, prunedFrom_newline_append, List.map_append, List.map_map, prunedLines, prunedLines,
    List.map_map]
  congr 1
  · refine List.map_congr_left fun p hp => ?_
    have hlt := start_lt_of_mem_prunedFrom hline hp
    rw [Text.lineNumber_line_append hl s hlt, Text.lineNumber_line hline hlt]
  · refine List.map_congr_left fun p _ => ?_
    exact Text.lineNumber_add hl s p.start

theorem keptTokens_newline_append :
    keptTokens extensions inComment ((l ++ ['\n']) ++ s) =
      keptTokens extensions inComment (l ++ ['\n']) ++
        (keptTokens extensions (endsInComment inComment (l ++ ['\n'])) s).map
          (Token.shift (Text.byteSize (l ++ ['\n']))) := by
  have hline := Text.firstLine_newline hl
  have hzero : ∀ n ∈ prunedLines extensions inComment (l ++ ['\n']), n = 0 := by
    intro n hn
    obtain ⟨p, hp, rfl⟩ := List.mem_map.mp hn
    exact Text.lineNumber_line hline (start_lt_of_mem_prunedFrom hline hp)
  rw [keptTokens, tokensFrom_newline_append, List.filter_append, List.filter_map,
    prunedLines_newline_append extensions inComment hl s, keptTokens, keptTokens]
  congr 1
  · refine List.filter_congr fun t ht => ?_
    rw [Text.lineNumber_line_append hl s (start_lt_of_mem ht),
      Text.lineNumber_line hline (start_lt_of_mem ht), List.contains_append]
    simp
  · refine congrArg _ (List.filter_congr fun t _ => ?_)
    have hlater : s.lineNumber t.start + 1 ∉ prunedLines extensions inComment (l ++ ['\n']) :=
      fun hmem => Nat.succ_ne_zero _ (hzero _ hmem)
    rw [Function.comp_apply, Token.shift, Text.lineNumber_add hl s, List.contains_append]
    simp [hlater]

theorem keptCharacters_newline_append :
    keptCharacters extensions inComment ((l ++ ['\n']) ++ s) =
      keptCharacters extensions inComment (l ++ ['\n']) ++
        (keptCharacters extensions (endsInComment inComment (l ++ ['\n'])) s).map
          fun x => (Text.byteSize (l ++ ['\n']) + x.1, x.2) := by
  have hline := Text.firstLine_newline hl
  rw [keptCharacters, placed_newline_append, List.filter_append, List.filter_map,
    prunedFrom_newline_append, keptCharacters, keptCharacters]
  congr 1
  · refine List.filter_congr fun x hx => ?_
    obtain ⟨-, hlt⟩ := bounds_of_mem_placed hx
    rw [Nat.zero_add] at hlt
    have hlater : (prunedFrom extensions (endsInComment inComment (l ++ ['\n'])) s).any
        ((·.covers x.1) ∘ Pragma.shift (Text.byteSize (l ++ ['\n']))) = false := by
      rw [List.any_eq_false]
      intro p _ hp
      rw [Function.comp_apply, Pragma.covers, Bool.and_eq_true, decide_eq_true_iff] at hp
      have hle : Text.byteSize (l ++ ['\n']) + p.start ≤ x.1 := hp.1
      omega
    rw [List.any_append, List.any_map, hlater, Bool.or_false]
  · refine congrArg _ (List.filter_congr fun x _ => ?_)
    have hbefore : (prunedFrom extensions inComment (l ++ ['\n'])).any
        (·.covers (Text.byteSize (l ++ ['\n']) + x.1)) = false := by
      rw [List.any_eq_false]
      intro p hp
      simp [Pragma.covers, stop_of_mem_prunedFrom hline hp]
    have hshift : ∀ p : Pragma, (p.shift (Text.byteSize (l ++ ['\n']))).covers
        (Text.byteSize (l ++ ['\n']) + x.1) = p.covers x.1 := by
      intro p
      simp [Pragma.covers, Pragma.shift]
    rw [Function.comp_apply, List.any_append, hbefore, List.any_map, Bool.false_or]
    simp only [Function.comp_def, hshift]

end

end Shading
