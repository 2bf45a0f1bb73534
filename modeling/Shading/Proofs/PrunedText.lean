import Shading.Proofs.KeptText

/-!
    What is left of a pruned text.

    Pruning is to take away directives and nothing else: the tokens of all other lines, what was in a
    comment as comment, and all other directives stay (`PrunesOnly`). It does so exactly when no deleted
    directive with text behind its line leaves a block comment open on it. For the deletion goes to the
    end of the line, so a comment that begins behind the directive loses its opening delimiter, and the
    rest of it on the following lines is read as code. -/

namespace Shading

/-- Pruning takes away directives and nothing else: the tokens of all other lines are left, every
    character that is kept is in a comment exactly if it was in one, and no other directive is lost or
    won. -/
structure PrunesOnly (extensions : List String) (inComment : Bool) (s s' : Text) : Prop where
  lexemes : (tokensFrom inComment s').map Token.lexeme =
    (keptTokens extensions inComment s).map Token.lexeme
  comments : (placed 0 (.start inComment) s').map (·.2) =
    (keptCharacters extensions inComment s).map (·.2)
  statements : (pragmasFrom inComment s').map Pragma.statement =
    (keptPragmas extensions inComment s).map Pragma.statement

/-- No deleted directive with text behind its line leaves a block comment open on it. -/
def ClosesComments (extensions : List String) (inComment : Bool) (s : Text) : Prop :=
  ∀ p ∈ prunedFrom extensions inComment s,
    p.stop = s.byteSize ∨ endsInComment inComment (s.takeBytes p.stop) = false

theorem closesComments_newline_append (extensions : List String) (inComment : Bool) {l : Text}
    (hl : '\n' ∉ l) (s : Text) :
    ClosesComments extensions inComment ((l ++ ['\n']) ++ s) ↔
      (prunedFrom extensions inComment (l ++ ['\n']) = [] ∨ s = [] ∨
        endsInComment inComment (l ++ ['\n']) = false) ∧
        ClosesComments extensions (endsInComment inComment (l ++ ['\n'])) s := by
  have hsize : Text.byteSize ((l ++ ['\n']) ++ s) = Text.byteSize (l ++ ['\n']) + s.byteSize :=
    Text.byteSize_append (l ++ ['\n']) s
  have hrest : ∀ p : Pragma,
      ((p.shift (Text.byteSize (l ++ ['\n']))).stop = Text.byteSize ((l ++ ['\n']) ++ s) ∨
        endsInComment inComment (Text.takeBytes (p.shift (Text.byteSize (l ++ ['\n']))).stop
          ((l ++ ['\n']) ++ s)) = false) ↔
      (p.stop = s.byteSize ∨
        endsInComment (endsInComment inComment (l ++ ['\n'])) (s.takeBytes p.stop) = false) := by
    intro p
    rw [hsize, Pragma.shift, Text.takeBytes_byteSize_add, endsInComment_newline_append,
      Nat.add_left_cancel_iff]
  have hfirst : ∀ p ∈ prunedFrom extensions inComment (l ++ ['\n']),
      (p.stop = Text.byteSize ((l ++ ['\n']) ++ s) ∨
        endsInComment inComment (Text.takeBytes p.stop ((l ++ ['\n']) ++ s)) = false) ↔
      (s = [] ∨ endsInComment inComment (l ++ ['\n']) = false) := by
    intro p hp
    rw [hsize, stop_of_mem_prunedFrom (Text.firstLine_newline hl) hp, Text.takeBytes_byteSize_append,
      Nat.left_eq_add, Text.byteSize_eq_zero]
  rw [ClosesComments, prunedFrom_newline_append, List.forall_mem_append, List.forall_mem_map]
  simp only [hrest]
  refine and_congr_left' ⟨fun h => ?_, fun h p hp => ?_⟩
  · cases hpruned : prunedFrom extensions inComment (l ++ ['\n']) with
    | nil => exact Or.inl rfl
    | cons p ps =>
      have hp : p ∈ prunedFrom extensions inComment (l ++ ['\n']) := by
        rw [hpruned]
        exact List.mem_cons_self
      exact Or.inr ((hfirst p hp).mp (h p hp))
  · rcases h with hnil | hx
    · rw [hnil] at hp
      exact absurd hp List.not_mem_nil
    · exact (hfirst p hp).mpr hx

/-! ### When pruning only prunes -/

section

variable {extensions : List String} {inComment : Bool}

theorem map_statement_shift (k : Nat) (ps : List Pragma) :
    (ps.map (Pragma.shift k)).map Pragma.statement = ps.map Pragma.statement := by
  rw [List.map_map]
  rfl

theorem map_met_shift (k : Nat) (xs : List (Nat × Char × Bool)) :
    (xs.map fun x => (k + x.1, x.2)).map (·.2) = xs.map (·.2) := by
  rw [List.map_map]
  rfl

theorem PrunesOnly.of_nil {s : Text} (h : prunedFrom extensions inComment s = []) :
    PrunesOnly extensions inComment s s where
  lexemes := by rw [keptTokens_of_nil h]
  comments := by rw [keptCharacters_of_nil h]
  statements := by rw [keptPragmas_of_nil h]

/-- What directives say in a text behind what is kept of a line. -/
theorem Opens.statements_kept {lead line : Text} {p : Pragma} (h : Opens inComment lead line p)
    (s : Text) : (pragmasFrom inComment (kept lead ++ s)).map Pragma.statement =
      (pragmas s).map Pragma.statement := by
  rw [pragmasFrom, h.tokensFrom_kept, Pragma.statement_among_shift _ _ s]
  rfl

theorem Opens.placed_kept {lead line : Text} {p : Pragma} (h : Opens inComment lead line p)
    (s : Text) : placed 0 (.start inComment) (kept lead ++ s) =
      placed 0 (.start inComment) (kept lead) ++
        (placed 0 .code s).map fun x => ((kept lead).byteSize + x.1, x.2) := by
  rw [placed_append, (h.gap_kept s.head?).2, Nat.zero_add, ← placed_shift, Nat.add_zero]

theorem prunesOnly_line {line : Text} (hline : line.firstLine = line) :
    PrunesOnly extensions inComment line (pruneFrom extensions inComment line) := by
  rcases prunedFrom_line extensions inComment hline with ⟨hnil, hkeep⟩ | ⟨lead, p, hone, hopens, hkept⟩
  · rw [hkeep]
    exact PrunesOnly.of_nil hnil
  · rw [hkept]
    have htokens := hopens.tokensFrom_kept []
    have hstatements := hopens.statements_kept []
    rw [List.append_nil] at htokens hstatements
    constructor
    · rw [htokens, keptTokens_of_opens hline hone hopens]
      rfl
    · rw [keptCharacters_of_opens hone hopens]
    · rw [hstatements, keptPragmas_of_opens hline hone]
      rfl

/-- What is left of a text is read alike from code and from where the line in front of it ends, if that
    is code or if nothing follows the line. -/
theorem pruneFrom_alike {s : Text} (h : s = [] ∨ inComment = false) :
    tokens (pruneFrom extensions inComment s) =
        tokensFrom inComment (pruneFrom extensions inComment s) ∧
      pragmas (pruneFrom extensions inComment s) =
        pragmasFrom inComment (pruneFrom extensions inComment s) ∧
      placed 0 .code (pruneFrom extensions inComment s) =
        placed 0 (.start inComment) (pruneFrom extensions inComment s) := by
  rcases h with rfl | rfl
  · exact ⟨rfl, rfl, rfl⟩
  · exact ⟨rfl, rfl, rfl⟩

/-- Pruning keeps what it should of a text if it does so behind the first line, and if that line does
    not lose the beginning of a comment. -/
theorem PrunesOnly.newline_append {l s : Text} (hl : '\n' ∉ l)
    (hcloses : prunedFrom extensions inComment (l ++ ['\n']) = [] ∨ s = [] ∨
      endsInComment inComment (l ++ ['\n']) = false)
    (h : PrunesOnly extensions (endsInComment inComment (l ++ ['\n'])) s
      (pruneFrom extensions (endsInComment inComment (l ++ ['\n'])) s)) :
    PrunesOnly extensions inComment ((l ++ ['\n']) ++ s)
      (pruneFrom extensions inComment ((l ++ ['\n']) ++ s)) := by
  have hline := Text.firstLine_newline hl
  have htokens := keptTokens_newline_append extensions inComment hl s
  have hcharacters := keptCharacters_newline_append extensions inComment hl s
  have hpragmas := keptPragmas_newline_append extensions inComment l s
  rw [pruneFrom_newline_append extensions inComment hl]
  rcases prunedFrom_line extensions inComment hline with ⟨hnil, hkeep⟩ | ⟨lead, p, hone, hopens, hkept⟩
  · rw [hkeep]
    constructor
    · rw [htokens, tokensFrom_newline_append, keptTokens_of_nil hnil, List.map_append, List.map_append,
        map_lexeme_shift, map_lexeme_shift, h.lexemes]
    · rw [hcharacters, placed_newline_append, keptCharacters_of_nil hnil, List.map_append,
        List.map_append, map_met_shift, map_met_shift, h.comments]
    · rw [hpragmas, pragmasFrom_newline_append, keptPragmas_of_nil hnil, List.map_append,
        List.map_append, map_statement_shift, map_statement_shift, h.statements]
  · have hne : prunedFrom extensions inComment (l ++ ['\n']) ≠ [] := by
      rw [hone]
      exact List.cons_ne_nil p []
    -- behind what is kept of the line the rest is read from code, as it was before
    obtain ⟨hreadTokens, hreadPragmas, hreadPlaced⟩ := pruneFrom_alike (hcloses.resolve_left hne)
    rw [hkept]
    constructor
    · rw [htokens, hopens.tokensFrom_kept, keptTokens_of_opens hline hone hopens, List.nil_append,
        map_lexeme_shift, map_lexeme_shift, hreadTokens, h.lexemes]
    · rw [hcharacters, hopens.placed_kept, keptCharacters_of_opens hone hopens, List.map_append,
        List.map_append, map_met_shift, map_met_shift, hreadPlaced, h.comments]
    · rw [hpragmas, hopens.statements_kept, keptPragmas_of_opens hline hone, List.nil_append,
        map_statement_shift, hreadPragmas, h.statements]

theorem ClosesComments.prunesOnly {s : Text} : ∀ {inComment : Bool},
    ClosesComments extensions inComment s →
      PrunesOnly extensions inComment s (pruneFrom extensions inComment s) := by
  induction s using Text.line_induction with
  | nil => exact fun _ => prunesOnly_line rfl
  | last l hne hl => exact fun _ => prunesOnly_line (Text.firstLine_of_not_mem hl)
  | line l s hl ih =>
    intro inComment h
    obtain ⟨hfirst, hrest⟩ := (closesComments_newline_append extensions inComment hl s).mp h
    exact PrunesOnly.newline_append hl hfirst (ih hrest)

/-! ### When a comment loses its beginning -/

theorem Opens.start_pos {lead line : Text} {p : Pragma} (h : Opens true lead line p) :
    0 < p.start := by
  have hblank := h.not_blank
  rw [h.start, if_neg (by rw [hblank]; decide)]
  cases lead with
  | nil => exact absurd hblank (by decide)
  | cons c lead =>
    have hc := c.utf8Size_pos
    rw [Text.byteSize_cons]
    omega

/-- Behind an open comment no deletion begins with the text. -/
theorem start_pos_of_mem_prunedFrom {s : Text} {p : Pragma} (h : p ∈ prunedFrom extensions true s) :
    0 < p.start := by
  have hfirst : ∀ {line : Text}, line.firstLine = line → ∀ p ∈ prunedFrom extensions true line,
      0 < p.start := by
    intro line hline p hp
    obtain ⟨lead, hopens⟩ := opens_of_mem_prunedFrom hline hp
    exact hopens.start_pos
  induction s using Text.line_induction with
  | nil => exact hfirst rfl p h
  | last l hne hl => exact hfirst (Text.firstLine_of_not_mem hl) p h
  | line l s hl =>
    rw [prunedFrom_newline_append, List.mem_append] at h
    rcases h with h | h
    · exact hfirst (Text.firstLine_newline hl) p h
    · obtain ⟨q, -, rfl⟩ := List.mem_map.mp h
      have hsize := Text.byteSize_newline l
      show 0 < _ + q.start
      omega

/-- The first character behind an open comment is kept, and it is met in that comment. -/
theorem exists_keptCharacters (extensions : List String) (c : Char) (s : Text) :
    ∃ xs, keptCharacters extensions true (c :: s) = (0, c, true) :: xs := by
  have hkeep : (!(prunedFrom extensions true (c :: s)).any (·.covers 0)) = true := by
    rw [Bool.not_eq_true', List.any_eq_false]
    intro p hp hcovers
    rw [Pragma.covers, Bool.and_eq_true, decide_eq_true_iff] at hcovers
    have hpos := start_pos_of_mem_prunedFrom hp
    have hle := hcovers.1
    omega
  exact ⟨_, by rw [keptCharacters, placed, List.filter_cons, if_pos hkeep]; rfl⟩

/-- What is read from code does not begin in a comment. -/
theorem placed_code_ne (s : Text) (c : Char) (xs : List (Char × Bool)) :
    (placed 0 .code s).map (·.2) ≠ (c, true) :: xs := by
  cases s with
  | nil => exact (List.cons_ne_nil _ xs).symm
  | cons d s =>
    intro h
    have hmet : false = true := congrArg Prod.snd (List.cons.inj h).1
    exact Bool.noConfusion hmet

/-- Where what is kept of comments stays in comments, no comment loses its beginning. -/
theorem closesComments_of_comments {s : Text} : ∀ {inComment : Bool},
    (placed 0 (.start inComment) (pruneFrom extensions inComment s)).map (·.2) =
      (keptCharacters extensions inComment s).map (·.2) → ClosesComments extensions inComment s := by
  induction s using Text.line_induction with
  | nil => exact fun _ p hp => Or.inl (stop_of_mem_prunedFrom rfl hp)
  | last l hne hl =>
    exact fun _ p hp => Or.inl (stop_of_mem_prunedFrom (Text.firstLine_of_not_mem hl) hp)
  | line l s hl ih =>
    intro inComment h
    rw [pruneFrom_newline_append extensions inComment hl,
      keptCharacters_newline_append extensions inComment hl s, List.map_append, map_met_shift] at h
    rw [closesComments_newline_append extensions inComment hl s]
    rcases prunedFrom_line extensions inComment (Text.firstLine_newline hl) with
      ⟨hnil, hkeep⟩ | ⟨lead, p, hone, hopens, hkept⟩
    · rw [hkeep, placed_newline_append, keptCharacters_of_nil hnil, List.map_append, map_met_shift,
        List.append_cancel_left_eq] at h
      exact ⟨Or.inl hnil, ih h⟩
    · rw [hkept, hopens.placed_kept, keptCharacters_of_opens hone hopens, List.map_append,
        map_met_shift, List.append_cancel_left_eq] at h
      have hcloses : s = [] ∨ endsInComment inComment (l ++ ['\n']) = false := by
        cases hends : endsInComment inComment (l ++ ['\n']) with
        | false => exact Or.inr rfl
        | true =>
          cases s with
          | nil => exact Or.inl rfl
          | cons c s =>
            -- the next character was met in the comment, and is met in code now
            rw [hends] at h
            obtain ⟨xs, hxs⟩ := exists_keptCharacters extensions c s
            rw [hxs] at h
            exact absurd h (placed_code_ne _ c (xs.map (·.2)))
      obtain ⟨-, -, hread⟩ := pruneFrom_alike hcloses
      refine ⟨Or.inr hcloses, ih ?_⟩
      rwa [← hread]

/-- Pruning takes away directives and nothing else exactly when no deleted directive with text behind
    its line leaves a block comment open on it. -/
theorem pruneExtensions_prunesOnly_iff (extensions : List String) (s : Text) :
    PrunesOnly extensions false s (pruneExtensions extensions s) ↔
      ∀ p ∈ pragmas s, (p.names extensions && p.behaves Pragma.switchedOn) = true →
        p.stop = s.byteSize ∨ endsInComment false (s.takeBytes p.stop) = false := by
  have hcloses : ClosesComments extensions false s ↔
      ∀ p ∈ pragmas s, (p.names extensions && p.behaves Pragma.switchedOn) = true →
        p.stop = s.byteSize ∨ endsInComment false (s.takeBytes p.stop) = false := by
    simp only [ClosesComments, prunedFrom, List.mem_filter, and_imp]
    exact Iff.rfl
  rw [← hcloses]
  exact ⟨fun h => closesComments_of_comments h.comments, fun h => h.prunesOnly⟩

end

/-- A comment that begins behind a deleted directive loses its beginning, and what it holds on the next
    line is read as code. -/
theorem not_prunesOnly_of_open_comment :
    ¬ PrunesOnly ["GL_EXT_frag_depth"] false
      "#extension GL_EXT_frag_depth : enable /* note\nend */ void main() \x7b\x7d\n".toList
      (pruneExtensions ["GL_EXT_frag_depth"]
        "#extension GL_EXT_frag_depth : enable /* note\nend */ void main() \x7b\x7d\n".toList) := by
  intro h
  exact absurd h.lexemes (by decide)

end Shading
