import Shading.Proofs.Directives

/-!
    Pruning line by line.

    The deletions of a text cut it, and those of a text with a first line are those of the line and those
    of the rest: so pruning a text is pruning its lines one by one (`pruneFrom_newline_append`), and of a
    line with a deleted directive only what stands in front of the directive can be left (`kept`). -/

namespace Shading

/-- The directives that pruning deletes. -/
def prunedFrom (extensions : List String) (inComment : Bool) (s : Text) : List Pragma :=
  (pragmasFrom inComment s).filter fun p => p.names extensions && p.behaves Pragma.switchedOn

/-- Pruning of a text that continues a block comment, if `inComment` says so. -/
def pruneFrom (extensions : List String) (inComment : Bool) (s : Text) : Text :=
  splice ((prunedFrom extensions inComment s).map Pragma.deletion) s

theorem prunedFrom_newline_append (extensions : List String) (inComment : Bool) (l s : Text) :
    prunedFrom extensions inComment ((l ++ ['\n']) ++ s) =
      prunedFrom extensions inComment (l ++ ['\n']) ++
        (prunedFrom extensions (endsInComment inComment (l ++ ['\n'])) s).map
          (Pragma.shift (Text.byteSize (l ++ ['\n']))) := by
  rw [prunedFrom, pragmasFrom_newline_append, List.filter_append, List.filter_map]
  rfl

/-- What pruning keeps of a line, given what stands in front of the directive. -/
def kept (lead : Text) : Text := if lead.all isBlank then [] else lead

theorem Opens.start_eq {inComment : Bool} {lead line : Text} {p : Pragma}
    (h : Opens inComment lead line p) : p.start = (kept lead).byteSize := by
  rw [h.start, kept]
  split <;> rfl

theorem Opens.exists_kept {inComment : Bool} {lead line : Text} {p : Pragma}
    (h : Opens inComment lead line p) : ∃ old : Text, line = kept lead ++ old := by
  obtain ⟨back, hcut⟩ := h.cut
  rw [kept]
  split
  · exact ⟨line, rfl⟩
  · exact ⟨'#' :: back, hcut⟩

/-- Deleting a directive leaves what is kept in front of it. -/
theorem Opens.splices {inComment : Bool} {lead line : Text} {p : Pragma}
    (h : Opens inComment lead line p) : Splices 0 [p.deletion] line (kept lead) := by
  obtain ⟨old, hcut⟩ := h.exists_kept
  have hsplices := Splices.single 0 (kept lead) old [] []
  have hdeletion : p.deletion =
      ⟨0 + (kept lead).byteSize, 0 + (kept lead).byteSize + old.byteSize, []⟩ := by
    rw [Pragma.deletion, h.start_eq, h.stop, hcut, Text.byteSize_append, Nat.zero_add]
  rwa [List.append_nil, List.append_nil, List.append_nil, ← hdeletion, ← hcut] at hsplices

/-- A line from which nothing is deleted, or one with a directive that is. -/
theorem prunedFrom_line (extensions : List String) (inComment : Bool) {line : Text}
    (hline : line.firstLine = line) :
    prunedFrom extensions inComment line = [] ∧ pruneFrom extensions inComment line = line ∨
      ∃ lead p, prunedFrom extensions inComment line = [p] ∧ Opens inComment lead line p ∧
        pruneFrom extensions inComment line = kept lead := by
  have hnone : prunedFrom extensions inComment line = [] →
      pruneFrom extensions inComment line = line := by
    intro h
    rw [pruneFrom, h]
    rfl
  rcases pragmasFrom_line inComment hline with h | ⟨lead, p, h, hopens⟩
  · have hnil : prunedFrom extensions inComment line = [] := by rw [prunedFrom, h]; rfl
    exact Or.inl ⟨hnil, hnone hnil⟩
  · cases hp : p.names extensions && p.behaves Pragma.switchedOn with
    | false =>
      have hnil : prunedFrom extensions inComment line = [] := by
        rw [prunedFrom, h, List.filter_cons, hp]
        rfl
      exact Or.inl ⟨hnil, hnone hnil⟩
    | true =>
      have hone : prunedFrom extensions inComment line = [p] := by
        rw [prunedFrom, h, List.filter_cons, hp]
        rfl
      refine Or.inr ⟨lead, p, hone, hopens, ?_⟩
      rw [pruneFrom, hone]
      exact hopens.splices.splice_eq

theorem opens_of_mem_prunedFrom {extensions : List String} {inComment : Bool} {line : Text}
    {p : Pragma} (hline : line.firstLine = line) (h : p ∈ prunedFrom extensions inComment line) :
    ∃ lead, Opens inComment lead line p := by
  rcases prunedFrom_line extensions inComment hline with ⟨hnil, -⟩ | ⟨lead, q, hone, hopens, -⟩
  · rw [hnil] at h
    exact absurd h List.not_mem_nil
  · rw [hone, List.mem_singleton] at h
    rw [h]
    exact ⟨lead, hopens⟩

theorem splices_pruneFrom_line (extensions : List String) (inComment : Bool) {line : Text}
    (hline : line.firstLine = line) :
    Splices 0 ((prunedFrom extensions inComment line).map Pragma.deletion) line
      (pruneFrom extensions inComment line) := by
  rcases prunedFrom_line extensions inComment hline with ⟨hnil, hkeep⟩ | ⟨lead, p, hone, hopens, hkept⟩
  · rw [hnil, hkeep]
    exact Splices.nil 0 line
  · rw [hone, hkept]
    exact hopens.splices

theorem splices_pruneFrom_newline_append (extensions : List String) (inComment : Bool) {l : Text}
    (hl : '\n' ∉ l) {s s' : Text}
    (h : Splices 0 ((prunedFrom extensions (endsInComment inComment (l ++ ['\n'])) s).map
      Pragma.deletion) s s') :
    Splices 0 ((prunedFrom extensions inComment ((l ++ ['\n']) ++ s)).map Pragma.deletion)
      ((l ++ ['\n']) ++ s) (pruneFrom extensions inComment (l ++ ['\n']) ++ s') := by
  have hline := splices_pruneFrom_line extensions inComment (Text.firstLine_newline hl)
  have hdeletion : Pragma.deletion ∘ Pragma.shift (Text.byteSize (l ++ ['\n'])) =
      Edit.shift (Text.byteSize (l ++ ['\n'])) ∘ Pragma.deletion := rfl
  rw [prunedFrom_newline_append, List.map_append, List.map_map, hdeletion, ← List.map_map]
  exact hline.append_shift h

/-- The deletions cut the text. -/
theorem splices_pruneFrom (extensions : List String) (s : Text) : ∀ inComment,
    Splices 0 ((prunedFrom extensions inComment s).map Pragma.deletion) s
      (pruneFrom extensions inComment s) := by
  induction s using Text.line_induction with
  | nil => exact fun inComment => splices_pruneFrom_line extensions inComment rfl
  | last l hne h =>
    exact fun inComment => splices_pruneFrom_line extensions inComment (Text.firstLine_of_not_mem h)
  | line l s h ih =>
    intro inComment
    have hsplices := splices_pruneFrom_newline_append extensions inComment h (ih _)
    rwa [pruneFrom, hsplices.splice_eq]

/-- Pruning goes line by line. -/
theorem pruneFrom_newline_append (extensions : List String) (inComment : Bool) {l : Text}
    (h : '\n' ∉ l) (s : Text) :
    pruneFrom extensions inComment ((l ++ ['\n']) ++ s) =
      pruneFrom extensions inComment (l ++ ['\n']) ++
        pruneFrom extensions (endsInComment inComment (l ++ ['\n'])) s :=
  (splices_pruneFrom_newline_append extensions inComment h
    (splices_pruneFrom extensions s _)).splice_eq

/-! ### Reading on behind what is kept -/

/-- Blanks do not close a comment. -/
theorem placeAfter_blockComment_of_blank : ∀ {s : Text}, s.all isBlank = true →
    placeAfter .blockComment s = .blockComment
  | [], _ => rfl
  | c :: s, h => by
    rw [List.all_cons, Bool.and_eq_true] at h
    have hstar : (c == '*') = false := by
      rw [beq_eq_false_iff_ne]
      rintro rfl
      exact absurd h.1 (by decide)
    rw [placeAfter, step, hstar]
    exact placeAfter_blockComment_of_blank h.2

/-- Behind an open comment something other than blanks stands in front of a directive. -/
theorem Opens.not_blank {lead line : Text} {p : Pragma} (h : Opens true lead line p) :
    lead.all isBlank = false := by
  cases hblank : lead.all isBlank with
  | false => rfl
  | true =>
    have hback := h.back
    rw [Place.start, if_pos rfl, placeAfter_blockComment_of_blank hblank] at hback
    exact Place.noConfusion hback

/-- What is kept of a line is read without a token up to code, whatever follows it. -/
theorem Opens.gap_kept {inComment : Bool} {lead line : Text} {p : Pragma}
    (h : Opens inComment lead line p) (next : Option Char) :
    (∀ x ∈ partRoles (.start inComment) (kept lead) next, x.2.isIdle = true) ∧
      partPlace (.start inComment) (kept lead) next = .code := by
  cases hblank : lead.all isBlank with
  | false =>
    have hidle := h.isIdle
    have hback := h.back
    rw [← partRoles_none] at hidle
    rw [← partPlace_none] at hback
    obtain ⟨hroles, hback⟩ := partRoles_of_idle_code next (isIdle_start inComment) hidle hback
    rw [kept, hblank, if_neg Bool.false_ne_true, hroles]
    exact ⟨hidle, hback⟩
  | true =>
    rw [kept, hblank, if_pos rfl]
    cases inComment with
    | false => exact ⟨fun _ hx => absurd hx List.not_mem_nil, rfl⟩
    | true => exact absurd h.not_blank (by rw [hblank]; decide)

/-- Behind what is kept of a line a text has the tokens that it has alone. -/
theorem Opens.tokensFrom_kept {inComment : Bool} {lead line : Text} {p : Pragma}
    (h : Opens inComment lead line p) (s : Text) :
    tokensFrom inComment (kept lead ++ s) = (tokens s).map (Token.shift (kept lead).byteSize) := by
  obtain ⟨hidle, hback⟩ := h.gap_kept s.head?
  exact tokensFrom_idle_append hidle hback

end Shading
