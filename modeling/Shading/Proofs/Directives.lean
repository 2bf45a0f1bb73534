import Shading.Pragma
import Shading.Proofs.Reading
import Shading.Proofs.Splices
import Shading.Proofs.TokenLines

/-!
    Directives line by line.

    Nothing of a directive reaches over the end of its line: the directives of a text are those of its
    lines, each line read with what the lines before it left open. A line holds at most one, and in
    front of it stand only blanks and the end of a comment (`Opens`). -/

namespace Shading

/-! ### Directives among tokens -/

/-- The token apart from its place. -/
def Token.unplaced (t : Token) : Token := { t with start := 0 }

theorem Token.map_unplaced_shift (k : Nat) (ts : List Token) :
    (ts.map (shift k)).map unplaced = ts.map unplaced := by
  rw [List.map_map]
  rfl

theorem map_lexeme_shift (k : Nat) (ts : List Token) :
    (ts.map (Token.shift k)).map Token.lexeme = ts.map Token.lexeme := by
  rw [List.map_map]
  rfl

/-- What stands on the line of a token does not reach over the first token of a later line. -/
theorem takeWhile_lineStart_append {ts' : List Token} (h : ts'.head?.all (·.lineStart) = true)
    (ts : List Token) :
    (ts ++ ts').takeWhile (!·.lineStart) = ts.takeWhile (!·.lineStart) := by
  have hnone : ts'.takeWhile (!·.lineStart) = [] := by
    cases ts' with
    | nil => rfl
    | cons t ts' =>
      have ht : t.lineStart = true := h
      rw [List.takeWhile_cons, ht]
      rfl
  rw [List.takeWhile_append, hnone, List.append_nil]
  split
  next hlength => exact ((List.takeWhile_prefix _).eq_of_length hlength).symm
  next => rfl

namespace Pragma

/-- The directive as it stands with `n` more bytes in front. -/
def shift (n : Nat) (p : Pragma) : Pragma := { p with start := n + p.start, stop := n + p.stop }

/-- What the directive says, apart from its place. -/
def statement (p : Pragma) : Text × Text := (p.name, p.behavior)

theorem stated?_unplaced (ts : List Token) : stated? (ts.map Token.unplaced) = stated? ts := by
  have htake : (ts.map Token.unplaced).takeWhile (!·.lineStart) =
      (ts.takeWhile (!·.lineStart)).map Token.unplaced := List.takeWhile_map
  rw [stated?, stated?, htake]
  generalize ts.takeWhile (!·.lineStart) = behind
  rcases behind with _ | ⟨t₁, _ | ⟨t₂, _ | ⟨t₃, _ | ⟨t₄, on⟩⟩⟩⟩
  all_goals rfl

theorem stated?_shift (k : Nat) (ts : List Token) :
    stated? (ts.map (Token.shift k)) = stated? ts := by
  rw [← stated?_unplaced, Token.map_unplaced_shift, stated?_unplaced]

/-- Tokens on later lines do not belong to a directive. -/
theorem stated?_append {ts' : List Token} (h : ts'.head?.all (·.lineStart) = true) (ts : List Token) :
    stated? (ts ++ ts') = stated? ts := by
  rw [stated?, takeWhile_lineStart_append h, stated?]

theorem among_append (s : Text) {ts' : List Token} (h : ts'.head?.all (·.lineStart) = true) :
    ∀ ts : List Token, among s (ts ++ ts') = among s ts ++ among s ts'
  | [] => rfl
  | t :: ts => by
    rw [List.cons_append, among, among, stated?_append h, among_append s h ts]
    split
    · split <;> rfl
    · rfl

/-- Tokens are read alike where their stretches are alike. -/
theorem among_shift (k : Nat) (s s' : Text) : ∀ ts : List Token,
    (∀ t ∈ ts, stretch s' (k + t.start) = (k + (stretch s t.start).1, k + (stretch s t.start).2)) →
    among s' (ts.map (Token.shift k)) = (among s ts).map (shift k)
  | [], _ => rfl
  | t :: ts, h => by
    have ih := among_shift k s s' ts fun t ht => h t (List.mem_cons_of_mem _ ht)
    have hmark : ((t.shift k).isMark '#' && (t.shift k).lineStart) = (t.isMark '#' && t.lineStart) := rfl
    have hstretch := h t List.mem_cons_self
    rw [List.map_cons, among, among, stated?_shift, hmark, Token.shift, hstretch, ih]
    split
    · split <;> rfl
    · rfl

/-- What directives say does not depend on where they stand. -/
theorem statement_among_unplaced (s s' : Text) : ∀ ts : List Token,
    (among s (ts.map Token.unplaced)).map statement = (among s' ts).map statement
  | [] => rfl
  | t :: ts => by
    have ih := statement_among_unplaced s s' ts
    have hmark : (t.unplaced.isMark '#' && t.unplaced.lineStart) = (t.isMark '#' && t.lineStart) := rfl
    rw [List.map_cons, among, among, stated?_unplaced, hmark]
    split
    · split
      · rw [List.map_cons, List.map_cons, ih]
        rfl
      · exact ih
    · exact ih

/-- Directives among tokens that differ in their places alone say the same. -/
theorem statement_among_congr {ts ts' : List Token}
    (h : ts.map Token.unplaced = ts'.map Token.unplaced) (s s' : Text) :
    (among s ts).map statement = (among s' ts').map statement := by
  rw [← statement_among_unplaced s s ts, h, statement_among_unplaced s s']

theorem statement_among_shift (k : Nat) (s s' : Text) (ts : List Token) :
    (among s (ts.map (Token.shift k))).map statement = (among s' ts).map statement :=
  statement_among_congr (Token.map_unplaced_shift k ts) s s'

/-! ### Stretches -/

theorem stretch_cut (a b : Text) : stretch (a ++ b) a.byteSize =
    (if a.lastLine.all isBlank then a.byteSize - a.lastLine.byteSize else a.byteSize,
      a.byteSize + b.firstLine.byteSize) := by
  rw [stretch, Text.takeBytes_byteSize_append, Text.dropBytes_byteSize_append]

/-- A stretch behind other lines. -/
theorem stretch_behind (l a b : Text) :
    stretch ((l ++ ['\n']) ++ (a ++ b)) (Text.byteSize (l ++ ['\n']) + a.byteSize) =
      (Text.byteSize (l ++ ['\n']) + (stretch (a ++ b) a.byteSize).1,
        Text.byteSize (l ++ ['\n']) + (stretch (a ++ b) a.byteSize).2) := by
  have hcut := stretch_cut ((l ++ ['\n']) ++ a) b
  rw [Text.byteSize_append (l ++ ['\n']), List.append_assoc (l ++ ['\n']),
    Text.lastLine_newline_append] at hcut
  have hle := a.byteSize_lastLine_le
  rw [hcut, stretch_cut, Nat.add_assoc, Nat.add_sub_assoc hle]
  split <;> rfl

/-- A stretch in front of other lines. -/
theorem stretch_before {a b : Text} (h : '\n' ∈ b) (s : Text) :
    stretch ((a ++ b) ++ s) a.byteSize = stretch (a ++ b) a.byteSize := by
  rw [List.append_assoc, stretch_cut, stretch_cut, Text.firstLine_append_of_mem s h]

end Pragma

/-! ### Directives of a text read in two parts -/

/-- The directives of a text that continues a block comment, if `inComment` says so. -/
def pragmasFrom (inComment : Bool) (s : Text) : List Pragma :=
  Pragma.among s (tokensFrom inComment s)

/-- The first token of a text is the first on its line. -/
theorem lineStart_head?_gather : ∀ (n : Nat) (R : List (Char × Role)),
    (gather n true R).head?.all (·.lineStart) = true
  | _, [] => rfl
  | _, (_, .head _) :: _ => rfl
  | n, (c, .tail) :: R => lineStart_head?_gather (n + c.utf8Size) R
  | n, (c, .blank) :: R => lineStart_head?_gather (n + c.utf8Size) R
  | n, (c, .comment) :: R => lineStart_head?_gather (n + c.utf8Size) R

theorem lineStart_head?_map_shift (k : Nat) (inComment : Bool) (s : Text) :
    ((tokensFrom inComment s).map (Token.shift k)).head?.all (·.lineStart) = true := by
  have hhead : (tokensFrom inComment s).head?.all (·.lineStart) = true :=
    lineStart_head?_gather 0 (roles (.start inComment) s)
  rw [List.head?_map]
  cases h : (tokensFrom inComment s).head? with
  | none => rfl
  | some t => rwa [h] at hhead

/-- A token begins in front of the end of the text. -/
theorem exists_cut_of_mem {inComment : Bool} {s : Text} {t : Token}
    (h : t ∈ tokensFrom inComment s) : ∃ a b, s = a ++ b ∧ b ≠ [] ∧ t.start = a.byteSize := by
  obtain ⟨a, b, hs, hstart⟩ := exists_of_mem_tokensFrom h
  refine ⟨a, t.text ++ b, hs, fun hnil => ?_, hstart⟩
  have hlt := start_lt_of_mem h
  rw [hnil, List.append_nil] at hs
  rw [hstart, hs] at hlt
  exact Nat.lt_irrefl _ hlt

theorem exists_of_mem_among {s : Text} {p : Pragma} : ∀ {ts : List Token}, p ∈ Pragma.among s ts →
    ∃ t ∈ ts, p.start = (Pragma.stretch s t.start).1 ∧ p.stop = (Pragma.stretch s t.start).2
  | [], h => absurd h List.not_mem_nil
  | t :: ts, h => by
    have hlater : p ∈ Pragma.among s ts → ∃ u ∈ t :: ts,
        p.start = (Pragma.stretch s u.start).1 ∧ p.stop = (Pragma.stretch s u.start).2 := by
      intro hp
      obtain ⟨u, hu, hplace⟩ := exists_of_mem_among hp
      exact ⟨u, List.mem_cons_of_mem t hu, hplace⟩
    rw [Pragma.among] at h
    split at h
    · split at h
      · rcases List.mem_cons.mp h with rfl | hp
        · exact ⟨t, List.mem_cons_self, rfl, rfl⟩
        · exact hlater hp
      · exact hlater h
    · exact hlater h

/-- The stretch of a directive is not empty. -/
theorem start_lt_stop_of_mem_pragmas {s : Text} {p : Pragma} (h : p ∈ pragmas s) :
    p.start < p.stop := by
  obtain ⟨t, ht, hstart, hstop⟩ := exists_of_mem_among h
  have ht : t ∈ tokensFrom false s := ht
  obtain ⟨a, b, hs, hb, hcut⟩ := exists_cut_of_mem ht
  have hpos := Text.byteSize_firstLine_pos hb
  rw [hstart, hstop, hcut, hs, Pragma.stretch_cut]
  split <;> omega

/-- What follows a line does not change its directives. -/
theorem among_newline_append (inComment : Bool) (l s : Text) :
    Pragma.among ((l ++ ['\n']) ++ s) (tokensFrom inComment (l ++ ['\n'])) =
      pragmasFrom inComment (l ++ ['\n']) := by
  have hshift := Pragma.among_shift 0 (l ++ ['\n']) ((l ++ ['\n']) ++ s)
    (tokensFrom inComment (l ++ ['\n'])) fun t ht => by
      obtain ⟨a, b, hcut, hb, hstart⟩ := exists_cut_of_mem ht
      rw [hstart, hcut, Nat.zero_add, Nat.zero_add, Nat.zero_add,
        Pragma.stretch_before (Text.newline_mem_of_cut hcut hb)]
  have hpragma : Pragma.shift 0 = id := by
    funext p; rw [Pragma.shift, Nat.zero_add, Nat.zero_add]; rfl
  rwa [Token.shift_zero, hpragma, List.map_id, List.map_id] at hshift

/-- The directives of a text cut behind a newline. -/
theorem pragmasFrom_newline_append (inComment : Bool) (l s : Text) :
    pragmasFrom inComment ((l ++ ['\n']) ++ s) =
      pragmasFrom inComment (l ++ ['\n']) ++
        (pragmasFrom (endsInComment inComment (l ++ ['\n'])) s).map
          (Pragma.shift (Text.byteSize (l ++ ['\n']))) := by
  have hrest := Pragma.among_shift (Text.byteSize (l ++ ['\n'])) s ((l ++ ['\n']) ++ s)
    (tokensFrom (endsInComment inComment (l ++ ['\n'])) s) fun t ht => by
      obtain ⟨a, b, rfl, -, hstart⟩ := exists_cut_of_mem ht
      rw [hstart, Pragma.stretch_behind]
  rw [pragmasFrom, tokensFrom_newline_append,
    Pragma.among_append _ (lineStart_head?_map_shift _ _ s), among_newline_append, hrest]
  rfl

/-! ### Directives of one line -/

/-- A line holds a directive that goes on to its end. What stands in front of it, `lead`, is read up to
    code and yields no token; the directive begins with the line if that is blank. -/
structure Opens (inComment : Bool) (lead line : Text) (p : Pragma) : Prop where
  cut : ∃ back, line = lead ++ ('#' :: back)
  isIdle : ∀ x ∈ roles (.start inComment) lead, x.2.isIdle = true
  back : placeAfter (.start inComment) lead = .code
  start : p.start = if lead.all isBlank then 0 else lead.byteSize
  stop : p.stop = line.byteSize

/-- Behind a token of a line no other is the first. -/
theorem lineStart_of_mem_gather {t : Token} : ∀ {n : Nat} {R : List (Char × Role)},
    Text.firstLine (R.map (·.1)) = R.map (·.1) → t ∈ gather n false R → t.lineStart = false
  | _, [], _, h => absurd h List.not_mem_nil
  | n, (c, role) :: R, hline, h => by
    rw [List.map_cons, Text.firstLine] at hline
    have hrest : R = [] ∨ (false || c == '\n') = false ∧
        Text.firstLine (R.map (·.1)) = R.map (·.1) := by
      by_cases hc : c = '\n'
      · rw [if_pos hc, List.cons.injEq] at hline
        exact Or.inl (List.map_eq_nil_iff.mp hline.2.symm)
      · rw [if_neg hc, List.cons.injEq] at hline
        exact Or.inr ⟨by simp [hc], hline.2⟩
    have hlater : ∀ k, t ∈ gather k (false || c == '\n') R → t.lineStart = false := by
      intro k ht
      rcases hrest with rfl | ⟨hfresh, hR⟩
      · exact absurd ht List.not_mem_nil
      · rw [hfresh] at ht
        exact lineStart_of_mem_gather hR ht
    have hsame : ∀ k, t ∈ gather k false R → t.lineStart = false := by
      intro k ht
      rcases hrest with rfl | ⟨-, hR⟩
      · exact absurd ht List.not_mem_nil
      · exact lineStart_of_mem_gather hR ht
    cases role with
    | head kind =>
      rcases List.mem_cons.mp h with rfl | ht
      · rfl
      · exact hsame _ ht
    | tail => exact hsame _ h
    | blank => exact hlater _ h
    | comment => exact hlater _ h

theorem Pragma.among_eq_nil (s : Text) : ∀ {ts : List Token}, (∀ t ∈ ts, t.lineStart = false) →
    among s ts = []
  | [], _ => rfl
  | t :: ts, h => by
    rw [among, h t List.mem_cons_self, Bool.and_false, if_neg Bool.false_ne_true,
      among_eq_nil s fun t ht => h t (List.mem_cons_of_mem _ ht)]

theorem kind_mark_of_enter {c d : Char} {next : Option Char}
    (h : (enter c next).1 = .head (.mark d)) : c = d := by
  rcases enter_cases c next with ⟨-, he⟩ | ⟨-, -, he⟩ | ⟨-, he⟩ | ⟨-, he⟩ | he
  all_goals rw [he] at h
  · exact Role.noConfusion h
  · exact Role.noConfusion h
  · exact Kind.noConfusion (Role.head.inj h)
  · exact Kind.noConfusion (Role.head.inj h)
  · exact Kind.mark.inj (Role.head.inj h)

/-- A line holds at most one directive. -/
theorem pragmasFrom_line (inComment : Bool) {line : Text} (hline : line.firstLine = line) :
    pragmasFrom inComment line = [] ∨
      ∃ lead p, pragmasFrom inComment line = [p] ∧ Opens inComment lead line p := by
  obtain ⟨lead, b, rfl, hidle, rfl | ⟨hback, c, u, kind, rfl, hkind⟩⟩ :=
    exists_gap line (isIdle_start inComment)
  · left
    have hnone := gather_idle [] 0 true _ hidle
    rw [List.append_nil, List.head?_nil, partRoles_none] at hnone
    rw [pragmasFrom, tokensFrom, List.append_nil, hnone]
    rfl
  have htokens : tokensFrom inComment (lead ++ (c :: u)) =
      ⟨kind, c :: tailOf (roles (enter c u.head?).2 u), lead.byteSize, true⟩ ::
        gather (lead.byteSize + c.utf8Size) false (roles (enter c u.head?).2 u) := by
    rw [tokensFrom, roles_append, hback, gather_idle _ _ _ _ hidle, map_fst_partRoles, Nat.zero_add,
      Bool.true_or, roles, step, hkind, gather]
  have hlater : Pragma.among (lead ++ (c :: u))
      (gather (lead.byteSize + c.utf8Size) false (roles (enter c u.head?).2 u)) = [] := by
    refine Pragma.among_eq_nil _ fun t ht => lineStart_of_mem_gather ?_ ht
    rw [map_fst_roles]
    cases u with
    | nil => rfl
    | cons d u =>
      have hcut : lead ++ (c :: d :: u) = (lead ++ [c]) ++ (d :: u) := by simp
      rw [hcut] at hline
      exact (Text.firstLine_cut (List.cons_ne_nil d u) hline).2
  obtain ⟨hlead, hback'⟩ := Text.firstLine_cut (List.cons_ne_nil c u) hline
  rw [pragmasFrom, htokens, Pragma.among, Bool.and_true, hlater]
  by_cases hmark : kind = .mark '#'
  · obtain rfl : c = '#' := kind_mark_of_enter (hkind.trans (congrArg Role.head hmark))
    have hsight : sight (some '#') = sight none := rfl
    rw [List.head?_cons] at hidle hback
    rw [partRoles_congr hsight, partRoles_none] at hidle
    rw [partPlace_congr hsight, partPlace_none] at hback
    cases Pragma.stated? (gather (lead.byteSize + '#'.utf8Size) false
        (roles (enter '#' u.head?).2 u)) with
    | none => left; split <;> rfl
    | some statement =>
      right
      refine ⟨lead, _, if_pos (beq_iff_eq.mpr hmark), ⟨u, rfl⟩, hidle, hback, ?_, ?_⟩
      · show (Pragma.stretch _ _).1 = _
        rw [Pragma.stretch_cut, Text.lastLine_of_not_mem hlead, Nat.sub_self]
      · show (Pragma.stretch _ _).2 = _
        rw [Pragma.stretch_cut, hback', Text.byteSize_append]
  · left
    exact if_neg fun h => hmark (beq_iff_eq.mp h)

end Shading
