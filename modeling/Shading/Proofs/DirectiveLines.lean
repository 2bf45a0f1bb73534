import Mathlib.Data.List.Basic
import Shading.Proofs.PrunedLines
import Shading.Proofs.Rematching
import Shading.Proofs.Tiling

/-!
    Declarations inside directives.

    A directive goes to the end of its physical line, but an entry point is three tokens in a row, on
    whatever lines. So `void main (` may stand in a directive, as in `#define ENTRY void main()`, and
    the declaration that is put in front of it ends with a newline and cuts the directive in two.

    A directive is a physical line whose first token is a `#` (`OnDirective`, `directives`). Along the
    pieces of a text it is a `#` in front of the rest of its line (`directivesAmong`), and a pass that
    puts declarations in front of the entry points leaves that rest as it is just when it holds no entry
    point (`restOfLine_declare_iff`). So the directives of a treated shader are those of the renamed one
    exactly when no entry point begins on the line of a directive (`Rules.directives_finish_iff`). -/

namespace Shading

/-- The tokens of a physical line begin with a `#`. -/
def isDirective (ts : List Token) : Bool := ts.head?.any (·.isMark '#')

/-- The tokens of a text, physical line by physical line. -/
def tokenLines (inComment : Bool) (s : Text) : List (List Token) :=
  (List.range (s.count '\n' + 1)).map (tokensOn inComment s)

/-- The directives of a text, each with the tokens of its line. -/
def directives (s : Text) : List (List Lexeme) :=
  ((tokenLines false s).filter isDirective).map (·.map Token.lexeme)

/-- The position lies on a physical line whose first token is a `#`. -/
def OnDirective (s : Text) (position : Nat) : Prop :=
  isDirective (tokensOn false s (s.lineNumber position)) = true

/-- An entry point begins in a directive. -/
def EntryInDirective (s : Text) : Prop := ∃ t ∈ entryPoints s, OnDirective s t.start

/-! ### Lines among tokens -/

/-- The lines among tokens that begin with a `#`. -/
def directiveLines : List Token → List (List Token)
  | [] => []
  | t :: ts =>
    if t.isMark '#' && t.lineStart then (t :: ts.takeWhile (!·.lineStart)) :: directiveLines ts
    else directiveLines ts

theorem directiveLines_append {ts' : List Token} (h : ts'.head?.all (·.lineStart) = true) :
    ∀ ts : List Token, directiveLines (ts ++ ts') = directiveLines ts ++ directiveLines ts'
  | [] => rfl
  | t :: ts => by
    rw [List.cons_append, directiveLines, directiveLines, takeWhile_lineStart_append h,
      directiveLines_append h ts]
    split <;> rfl

theorem directiveLines_shift (k : Nat) : ∀ ts : List Token,
    directiveLines (ts.map (Token.shift k)) = (directiveLines ts).map (·.map (Token.shift k))
  | [] => rfl
  | t :: ts => by
    have hrest : (ts.map (Token.shift k)).takeWhile (!·.lineStart) =
        (ts.takeWhile (!·.lineStart)).map (Token.shift k) := List.takeWhile_map
    have hmark : ((t.shift k).isMark '#' && (t.shift k).lineStart) = (t.isMark '#' && t.lineStart) := rfl
    rw [List.map_cons, directiveLines, directiveLines, directiveLines_shift k ts, hrest, hmark]
    split <;> rfl

theorem directiveLines_eq_nil : ∀ {ts : List Token}, (∀ t ∈ ts, t.lineStart = false) →
    directiveLines ts = []
  | [], _ => rfl
  | t :: ts, h => by
    rw [directiveLines, h t List.mem_cons_self, Bool.and_false, if_neg Bool.false_ne_true,
      directiveLines_eq_nil fun t ht => h t (List.mem_cons_of_mem _ ht)]

/-- A line is a directive, or there is none on it. -/
theorem directiveLines_line (inComment : Bool) {line : Text} (hline : line.firstLine = line) :
    directiveLines (tokensFrom inComment line) = [tokensFrom inComment line].filter isDirective := by
  cases htokens : tokensFrom inComment line with
  | nil => rfl
  | cons t ts =>
    obtain ⟨ht, hts⟩ := lineStart_of_line hline htokens
    have hhash : isDirective (t :: ts) = t.isMark '#' := rfl
    rw [directiveLines, ht, Bool.and_true, takeWhile_lineStart_eq_self hts, directiveLines_eq_nil hts,
      List.filter_cons, hhash, List.filter_nil]

theorem tokenLines_last (inComment : Bool) {l : Text} (h : '\n' ∉ l) :
    tokenLines inComment l = [tokensFrom inComment l] := by
  rw [tokenLines, List.count_eq_zero.mpr h]
  exact congrArg ([·]) (tokensOn_last inComment h)

theorem tokenLines_line (inComment : Bool) {l : Text} (h : '\n' ∉ l) (s : Text) :
    tokenLines inComment ((l ++ ['\n']) ++ s) = tokensFrom inComment (l ++ ['\n']) ::
      (tokenLines (endsInComment inComment (l ++ ['\n'])) s).map
        (·.map (·.shift (Text.byteSize (l ++ ['\n'])))) := by
  have hcount : List.count '\n' ((l ++ ['\n']) ++ s) = s.count '\n' + 1 := by
    rw [List.count_append, List.count_append, List.count_eq_zero.mpr h, Nat.zero_add, Nat.add_comm]
    rfl
  rw [tokenLines, hcount, List.range_succ_eq_map, List.map_cons, tokensOn_zero inComment h,
    List.map_map, tokenLines, List.map_map]
  exact congrArg _ (List.map_congr_left fun line _ => tokensOn_succ inComment h s line)

/-- The physical lines that begin with a `#` are those among the tokens. -/
theorem filter_isDirective_tokenLines (s : Text) : ∀ inComment : Bool,
    (tokenLines inComment s).filter isDirective = directiveLines (tokensFrom inComment s) := by
  induction s using Text.line_induction with
  | nil => intro inComment; cases inComment <;> rfl
  | last l hne h =>
    intro inComment
    rw [tokenLines_last inComment h, directiveLines_line inComment (Text.firstLine_of_not_mem h)]
  | line l s h ih =>
    intro inComment
    have hshift : isDirective ∘ (·.map (Token.shift (Text.byteSize (l ++ ['\n'])))) = isDirective := by
      funext ts
      cases ts <;> rfl
    rw [tokenLines_line inComment h, tokensFrom_newline_append,
      directiveLines_append (lineStart_head?_map_shift _ _ s), directiveLines_shift, ← ih,
      directiveLines_line inComment (Text.firstLine_newline h), ← List.singleton_append,
      List.filter_append, List.filter_map, hshift]

/-! ### Directives along the pieces -/

/-- The tokens of the pieces up to the end of the line. -/
def restOfLine : List Piece → List Lexeme
  | [] => []
  | p :: ps => if p.gap.contains '\n' then [] else p.lexeme :: restOfLine ps

/-- The directives among pieces. `fresh` says that no token stands in front of them on the line. -/
def directivesAmong : Bool → List Piece → List (List Lexeme)
  | _, [] => []
  | fresh, p :: ps =>
    if p.isMark '#' && (fresh || p.gap.contains '\n') then
      (p.lexeme :: restOfLine ps) :: directivesAmong false ps
    else directivesAmong false ps

/-- An entry point begins before the end of the line. -/
def entersRest : List Piece → Bool
  | [] => false
  | p :: ps => !p.gap.contains '\n' && (beginsEntry (p :: ps) || entersRest ps)

/-- An entry point begins in a directive among the pieces. -/
def entersDirective : Bool → List Piece → Bool
  | _, [] => false
  | fresh, p :: ps =>
    p.isMark '#' && (fresh || p.gap.contains '\n') && entersRest ps || entersDirective false ps

theorem restOfLine_locate (n : Nat) : ∀ ps : List Piece,
    ((locate n false ps).takeWhile (!·.lineStart)).map Token.lexeme = restOfLine ps
  | [] => rfl
  | p :: ps => by
    have ih := restOfLine_locate (n + p.gap.byteSize + p.text.byteSize) ps
    rw [locate, List.takeWhile_cons, Bool.false_or, restOfLine]
    cases p.gap.contains '\n' with
    | true => rfl
    | false => exact congrArg _ ih

theorem directiveLines_locate : ∀ (n : Nat) (fresh : Bool) (ps : List Piece),
    (directiveLines (locate n fresh ps)).map (·.map Token.lexeme) = directivesAmong fresh ps
  | _, _, [] => rfl
  | n, fresh, p :: ps => by
    have ih := directiveLines_locate (n + p.gap.byteSize + p.text.byteSize) false ps
    have hmark : Token.isMark ⟨p.kind, p.text, n + p.gap.byteSize, fresh || p.gap.contains '\n'⟩ '#' =
        p.isMark '#' := rfl
    rw [locate, directiveLines, directivesAmong, hmark]
    split
    · rw [List.map_cons, List.map_cons, restOfLine_locate, ih]
      rfl
    · exact ih

theorem directives_eq (s : Text) : directives s = directivesAmong true (Reading.of s).pieces := by
  have hlines := filter_isDirective_tokenLines s false
  rw [directives, hlines, ← directiveLines_locate 0, ← tokens_eq]
  rfl

/-! ### Entry points among tokens -/

theorem subset_of_mem_directiveLines {line : List Token} : ∀ {ts : List Token},
    line ∈ directiveLines ts → line ⊆ ts
  | [], h => absurd h List.not_mem_nil
  | t :: ts, h => by
    have hlater : line ∈ directiveLines ts → line ⊆ t :: ts := fun h _ hu =>
      List.mem_cons_of_mem t (subset_of_mem_directiveLines h hu)
    rw [directiveLines] at h
    split at h
    · rcases List.mem_cons.mp h with rfl | h
      · exact List.cons_subset_cons t (List.takeWhile_sublist _).subset
      · exact hlater h
    · exact hlater h

section

variable (shapes : List Shape) {t : Token} {ts : List Token} (ht : t ∉ ts)

include ht

/-- Behind a token, the same occurrences are found with and without it. -/
theorem exists_occurrence {line : List Token} (hline : line ⊆ ts) :
    (∃ u ∈ line, u ∈ occurrences shapes (t :: ts)) ↔ ∃ u ∈ line, u ∈ occurrences shapes ts := by
  refine exists_congr fun u => and_congr_right fun hu => ?_
  have hne : u ≠ t := fun h => ht (h ▸ hline hu)
  rw [occurrences]
  split
  · rw [List.mem_cons, or_iff_right hne]
  · rfl

theorem head_mem_occurrences :
    t ∈ occurrences shapes (t :: ts) ↔ beginsAs shapes (t :: ts) = true := by
  rw [occurrences]
  split
  next h => exact iff_of_true List.mem_cons_self h
  next h => exact iff_of_false (fun hmem => ht ((occurrences_sublist shapes ts).mem hmem)) h

/-- An occurrence on a line begins with its first token or stands behind it. -/
theorem exists_occurrence_cons {line : List Token} (hline : line ⊆ ts) :
    (∃ u ∈ t :: line, u ∈ occurrences shapes (t :: ts)) ↔
      beginsAs shapes (t :: ts) = true ∨ ∃ u ∈ line, u ∈ occurrences shapes ts := by
  rw [List.exists_mem_cons_iff, head_mem_occurrences shapes ht, exists_occurrence shapes ht hline]

end

theorem nodup_tokens (s : Text) : (tokens s).Nodup := by
  have htile := tokensFrom_tile false s
  refine htile.ordered.imp_of_mem fun {t u} ht _ hle => ?_
  rintro rfl
  have hlt := (htile.placed t ht).start_lt_stop
  omega

theorem entersRest_iff : ∀ (n : Nat) (ps : List Piece), (locate n false ps).Nodup →
    ((∃ t ∈ (locate n false ps).takeWhile (!·.lineStart),
      t ∈ occurrences entryShape (locate n false ps)) ↔ entersRest ps = true)
  | _, [], _ => by
    refine iff_of_false ?_ Bool.noConfusion
    rintro ⟨_, ht, _⟩
    exact List.not_mem_nil ht
  | n, p :: ps, h => by
    have hbegins := beginsAs_entryShape n false (p :: ps)
    rw [locate] at h hbegins ⊢
    obtain ⟨hp, hps⟩ := List.nodup_cons.mp h
    have ih := entersRest_iff (n + p.gap.byteSize + p.text.byteSize) ps hps
    have hcons := exists_occurrence_cons entryShape hp (List.takeWhile_sublist (!·.lineStart)).subset
    rw [hbegins, ih] at hcons
    by_cases hline : p.gap.contains '\n' = true
    · rw [List.takeWhile_cons_of_neg (by rw [hline]; exact Bool.false_ne_true), entersRest, hline]
      refine iff_of_false ?_ Bool.noConfusion
      rintro ⟨_, ht, _⟩
      exact List.not_mem_nil ht
    · rw [List.takeWhile_cons_of_pos (by rw [Bool.eq_false_iff.mpr hline]; rfl), hcons, entersRest,
        Bool.eq_false_iff.mpr hline, Bool.not_false, Bool.true_and, Bool.or_eq_true]

theorem entersDirective_iff : ∀ (n : Nat) (fresh : Bool) (ps : List Piece),
    (locate n fresh ps).Nodup →
      ((∃ line ∈ directiveLines (locate n fresh ps), ∃ t ∈ line,
        t ∈ occurrences entryShape (locate n fresh ps)) ↔ entersDirective fresh ps = true)
  | _, _, [], _ => by
    refine iff_of_false ?_ Bool.noConfusion
    rintro ⟨_, hline, _⟩
    exact List.not_mem_nil hline
  | n, fresh, p :: ps, h => by
    have hbegins := beginsAs_entryShape n fresh (p :: ps)
    rw [locate] at h hbegins ⊢
    obtain ⟨hp, hps⟩ := List.nodup_cons.mp h
    have ih := entersDirective_iff (n + p.gap.byteSize + p.text.byteSize) false ps hps
    have hrest := entersRest_iff (n + p.gap.byteSize + p.text.byteSize) ps hps
    have hcons := exists_occurrence_cons entryShape hp (List.takeWhile_sublist (!·.lineStart)).subset
    rw [hbegins, hrest] at hcons
    have hlater := exists_congr fun line =>
      and_congr_right fun hline : line ∈ directiveLines (locate _ false ps) =>
        exists_occurrence entryShape hp (subset_of_mem_directiveLines hline)
    rw [ih] at hlater
    have hmark : Token.isMark ⟨p.kind, p.text, n + p.gap.byteSize, fresh || p.gap.contains '\n'⟩ '#' =
        p.isMark '#' := rfl
    rw [directiveLines, hmark, entersDirective]
    by_cases hhash : (p.isMark '#' && (fresh || p.gap.contains '\n')) = true
    · -- a `#` begins no entry point
      have hnot : beginsEntry (p :: ps) ≠ true := by
        intro hentry
        rw [Bool.and_eq_true, Piece.isMark, kind_of_beginsEntry hentry] at hhash
        exact Bool.noConfusion hhash.1
      rw [if_pos hhash, List.exists_mem_cons_iff, hcons, hlater, or_iff_right hnot, hhash,
        Bool.true_and, Bool.or_eq_true]
    · rw [if_neg hhash, hlater, Bool.eq_false_iff.mpr hhash, Bool.false_and, Bool.false_or]

/-- A line of the text that is a directive, and a position on it. -/
theorem mem_directiveLines_iff {s : Text} {line : List Token} :
    line ∈ directiveLines (tokens s) ↔
      isDirective line = true ∧ ∃ n < s.count '\n' + 1, tokensOn false s n = line := by
  have hlines : (tokenLines false s).filter isDirective = directiveLines (tokens s) :=
    filter_isDirective_tokenLines s false
  rw [← hlines, List.mem_filter, and_comm, tokenLines, List.mem_map]
  simp only [List.mem_range]

/-- Whether an entry point begins in a directive is seen along the pieces. -/
theorem entryInDirective_iff (s : Text) :
    EntryInDirective s ↔ entersDirective true (Reading.of s).pieces = true := by
  have hnodup := nodup_tokens s
  rw [tokens_eq] at hnodup
  rw [← entersDirective_iff 0 true _ hnodup, ← tokens_eq]
  constructor
  · rintro ⟨t, ht, hdirective⟩
    have hline : s.lineNumber t.start ≤ s.count '\n' := by
      have hsublist := List.sublist_append_left (s.takeBytes t.start) (s.dropBytes t.start)
      rw [Text.takeBytes_append_dropBytes] at hsublist
      exact hsublist.count_le '\n'
    refine ⟨tokensOn false s (s.lineNumber t.start), ?_, t, ?_, ht⟩
    · exact mem_directiveLines_iff.mpr ⟨hdirective, _, Nat.lt_succ_of_le hline, rfl⟩
    · exact List.mem_filter.mpr ⟨(occurrences_sublist _ _).mem ht, beq_self_eq_true _⟩
  · rintro ⟨line, hmem, t, htline, ht⟩
    obtain ⟨hdirective, n, -, rfl⟩ := mem_directiveLines_iff.mp hmem
    have hn : s.lineNumber t.start = n := beq_iff_eq.mp (List.mem_filter.mp htline).2
    exact ⟨t, ht, by rwa [OnDirective, hn]⟩

instance (s : Text) : Decidable (EntryInDirective s) :=
  decidable_of_iff _ (entryInDirective_iff s).symm

/-! ### What a pass does to directives -/

section

variable {f : Piece → List Piece → Option String} (havoid : Avoids ["void", "main"] f)

include havoid

/-- Renaming keeps entry points and directives where they are. -/
theorem entersRest_respell : ∀ ps : List Piece, entersRest (respell f ps) = entersRest ps
  | [] => rfl
  | p :: ps => by
    have hentry := beginsEntry_respell havoid (p :: ps)
    rw [respell] at hentry ⊢
    rw [entersRest, hentry, entersRest_respell ps, entersRest]

theorem entersDirective_respell : ∀ (fresh : Bool) (ps : List Piece),
    entersDirective fresh (respell f ps) = entersDirective fresh ps
  | _, [] => rfl
  | fresh, p :: ps => by
    rw [respell, entersDirective, entersRest_respell havoid, entersDirective_respell false ps,
      entersDirective]
    rfl

end

section

variable {t : Text} {r : Reading} (rest : Text)

/-- A declaration changes the rest of the line just when an entry point begins on it. -/
theorem restOfLine_declare_iff (ht : t ≠ "void".toList) : ∀ ps : List Piece,
    restOfLine (declare (r.cons ⟨[], .word, t⟩) ps rest).pieces = restOfLine ps ↔
      entersRest ps = false
  | [] => iff_of_true rfl rfl
  | p :: ps => by
    have ih := restOfLine_declare_iff ht ps
    cases hentry : beginsEntry (p :: ps) with
    | true =>
      have hvoid : (Kind.word, t) ≠ p.lexeme := fun h =>
        ht ((congrArg Prod.snd h).trans (isWord_text (isWord_of_beginsEntry hentry)))
      rw [declare_of_beginsEntry hentry, restOfLine, restOfLine, entersRest, hentry, Bool.true_or,
        Bool.and_true]
      cases p.gap.contains '\n' with
      | true => exact iff_of_true rfl rfl
      | false => exact iff_of_false (fun h => hvoid (List.cons.inj h).1) Bool.noConfusion
    | false =>
      rw [declare_of_not_beginsEntry hentry, Reading.cons, restOfLine, restOfLine, entersRest, hentry,
        Bool.false_or]
      cases p.gap.contains '\n' with
      | true => exact iff_of_true rfl rfl
      | false =>
        rw [if_neg Bool.false_ne_true, if_neg Bool.false_ne_true, List.cons.injEq, ih]
        exact and_iff_right rfl

/-- No directive begins among pieces on one line. -/
theorem directivesAmong_line (ps : List Piece) : ∀ {ds : List Piece},
    (∀ q ∈ ds, q.gap.contains '\n' = false) →
      directivesAmong false (ds ++ ps) = directivesAmong false ps
  | [], _ => rfl
  | q :: ds, h => by
    rw [List.forall_mem_cons] at h
    rw [List.cons_append, directivesAmong, h.1, Bool.false_or, Bool.and_false,
      if_neg Bool.false_ne_true, directivesAmong_line ps h.2]

/-- A declaration on one line changes the directives just when an entry point begins in one. -/
theorem directivesAmong_declare_iff (ht : t ≠ "void".toList)
    (hline : ∀ q ∈ r.pieces, q.gap.contains '\n' = false) : ∀ (fresh : Bool) (ps : List Piece),
      directivesAmong fresh (declare (r.cons ⟨[], .word, t⟩) ps rest).pieces =
          directivesAmong fresh ps ↔ entersDirective fresh ps = false
  | _, [] => iff_of_true rfl rfl
  | fresh, p :: ps => by
    have ih := directivesAmong_declare_iff ht hline false ps
    have hword : ∀ {q : Piece}, q.kind = .word → q.isMark '#' = false := by
      intro q h
      rw [Piece.isMark, h]
      rfl
    cases hentry : beginsEntry (p :: ps) with
    | true =>
      have hp := kind_of_beginsEntry hentry
      have hfirst : Piece.isMark ⟨p.gap, .word, t⟩ '#' = false := rfl
      have hbehind : Piece.isMark ⟨r.rest, p.kind, p.text⟩ '#' = false := hword hp
      rw [declare_of_beginsEntry hentry, directivesAmong, hfirst, Bool.false_and,
        if_neg Bool.false_ne_true, directivesAmong_line _ hline, directivesAmong, hbehind,
        Bool.false_and, if_neg Bool.false_ne_true, directivesAmong, entersDirective, hword hp,
        Bool.false_and, if_neg Bool.false_ne_true, Bool.false_and, Bool.false_or]
      exact ih
    | false =>
      rw [declare_of_not_beginsEntry hentry, Reading.cons, directivesAmong, directivesAmong,
        entersDirective]
      cases p.isMark '#' && (fresh || p.gap.contains '\n') with
      | true =>
        rw [if_pos rfl, if_pos rfl, List.cons.injEq, List.cons.injEq, restOfLine_declare_iff rest ht,
          ih, Bool.true_and, Bool.or_eq_false_iff]
        exact and_congr_left fun _ => and_iff_right rfl
      | false =>
        rw [if_neg Bool.false_ne_true, if_neg Bool.false_ne_true, Bool.false_and, Bool.false_or]
        exact ih

end

namespace Rules

/-- A fragment shader pruned and renamed, without the declaration of an output. -/
def renamed (rules : Rules) (s : Text) : Text :=
  renameWords rules.fragmentOutputs (rules.common s)

/-- Where the declaration of an output is put into the renamed shader. -/
def insertions (rules : Rules) (s : Text) : List Edit :=
  if rules.hasOwnOutput s then []
  else (entryPoints (rules.renamed s)).map (·.precededBy rules.outputDeclaration)

theorem finish_eq_splice (rules : Rules) (defines : DefineSet) (s : Text) :
    rules.finish defines .fragment s = splice (rules.insertions s) (rules.renamed s) := by
  rw [finish, insertions]
  cases rules.hasOwnOutput s with
  | true => rw [if_pos rfl, if_pos rfl, splice_nil, renamed]
  | false =>
    rw [if_neg Bool.false_ne_true, if_neg Bool.false_ne_true, insertBeforeEntryPoints, renamed]

/-- Entry points of the renamed shader are in directives where those of the pruned one are. -/
theorem Lawful.entryInDirective_renamed {rules : Rules} (h : rules.Lawful) (s : Text) :
    EntryInDirective (rules.renamed s) ↔
      EntryInDirective (pruneExtensions rules.prunedExtensions s) := by
  rw [entryInDirective_iff, entryInDirective_iff, renamed, h.of_renamed, Reading.respell,
    entersDirective_respell ((rules.lists_spelling? .fragment).avoids h.entry)]

theorem forall_insertions_iff (rules : Rules) (s : Text) :
    (∀ e ∈ rules.insertions s, ¬ OnDirective (rules.renamed s) e.start) ↔
      rules.BringsOutput s ∨ ¬ EntryInDirective (rules.renamed s) := by
  rw [← hasOwnOutput_iff, insertions, EntryInDirective]
  cases rules.hasOwnOutput s with
  | true => exact iff_of_true (fun e he => absurd he List.not_mem_nil) (Or.inl rfl)
  | false =>
    rw [if_neg Bool.false_ne_true, or_iff_right Bool.false_ne_true, List.forall_mem_map, not_exists]
    exact forall_congr' fun t => not_and.symm

/-- The declaration stands on one line and does not begin like an entry point. -/
theorem exists_declaration {rules : Rules} (h : rules = glsl300es ∨ rules = glsl450) :
    ∃ t r, Reading.of rules.outputDeclaration.toList = Reading.cons ⟨[], .word, t⟩ r ∧
      t ≠ "void".toList ∧ ∀ q ∈ r.pieces, q.gap.contains '\n' = false := by
  obtain ⟨t, r, hd⟩ := Reading.exists_of_letter (lawful_of_builtin h).letter
  have hpieces : (∀ q ∈ (Reading.of rules.outputDeclaration.toList).pieces.head?,
        q.text ≠ "void".toList) ∧
      ∀ q ∈ (Reading.of rules.outputDeclaration.toList).pieces.tail, q.gap.contains '\n' = false := by
    rcases h with rfl | rfl <;> decide
  rw [hd] at hpieces
  exact ⟨t, r, hd, hpieces.1 _ rfl, hpieces.2⟩

/-- In a fragment shader the declaration of an output is put into a directive exactly when the shader
    brings no output of its own and an entry point of the pruned shader begins on the line of a
    directive. Exactly then the directives of the result are not those of the renamed shader. -/
theorem directives_finish_iff {rules : Rules} (h : rules = glsl300es ∨ rules = glsl450)
    (defines : DefineSet) (s : Text) :
    rules.finish defines .fragment s = splice (rules.insertions s) (rules.renamed s) ∧
      ((∀ e ∈ rules.insertions s, ¬ OnDirective (rules.renamed s) e.start) ↔
        rules.BringsOutput s ∨
          ¬ EntryInDirective (pruneExtensions rules.prunedExtensions s)) ∧
      (directives (rules.finish defines .fragment s) = directives (rules.renamed s) ↔
        rules.BringsOutput s ∨
          ¬ EntryInDirective (pruneExtensions rules.prunedExtensions s)) := by
  have hlawful := lawful_of_builtin h
  rw [← hlawful.entryInDirective_renamed s]
  refine ⟨rules.finish_eq_splice defines s, rules.forall_insertions_iff s, ?_⟩
  have hfinish : rules.finish defines .fragment s = if rules.hasOwnOutput s then rules.renamed s
      else insertBeforeEntryPoints rules.outputDeclaration (rules.renamed s) := by
    rw [finish, renamed]
  rw [← hasOwnOutput_iff, hfinish]
  cases rules.hasOwnOutput s with
  | true => rw [if_pos rfl]; exact iff_of_true rfl (Or.inl rfl)
  | false =>
    obtain ⟨t, r, hd, ht, hline⟩ := exists_declaration h
    rw [if_neg Bool.false_ne_true, or_iff_right Bool.false_ne_true, directives_eq, directives_eq,
      of_insertBeforeEntryPoints hlawful.declaration hlawful.letter, hd,
      directivesAmong_declare_iff _ ht hline, entryInDirective_iff, Bool.not_eq_true]

/-- An entry point behind the end of a comment that a directive begins. -/
theorem directives_finish_iff_comment :
    (glsl450 = glsl300es ∨ glsl450 = glsl450) ∧
      directives (glsl450.finish .empty .fragment "#define C gl_FragColor /*\n*/void main(){C=a;}".toList) =
        [[(.mark '#', ['#']), (.word, "define".toList), (.word, ['C']),
          (.word, "glFragColor".toList)]] := by
  have h : glsl450 = glsl300es ∨ glsl450 = glsl450 := Or.inr rfl
  have hentry : ¬ EntryInDirective (pruneExtensions glsl450.prunedExtensions
      "#define C gl_FragColor /*\n*/void main(){C=a;}".toList) := by decide
  have hkept := (directives_finish_iff h .empty
    "#define C gl_FragColor /*\n*/void main(){C=a;}".toList).2.2.mpr (Or.inr hentry)
  exact ⟨h, hkept.trans (by decide)⟩

/-- A macro that stands for the beginning of an entry point is cut in two. -/
theorem directive_cut_in_two :
    ¬ (∀ e ∈ glsl300es.insertions
          "#define ENTRY void main()\nENTRY { gl_FragColor = vec4(1.0); }\n".toList,
        ¬ OnDirective (glsl300es.renamed
          "#define ENTRY void main()\nENTRY { gl_FragColor = vec4(1.0); }\n".toList) e.start) ∧
      directives (glsl300es.finish .empty .fragment
          "#define ENTRY void main()\nENTRY { gl_FragColor = vec4(1.0); }\n".toList) ≠
        directives (glsl300es.renamed
          "#define ENTRY void main()\nENTRY { gl_FragColor = vec4(1.0); }\n".toList) ∧
      glsl300es.finish .empty .fragment
          "#define ENTRY void main()\nENTRY { gl_FragColor = vec4(1.0); }\n".toList =
        ("#define ENTRY layout(location = 0) out vec4 glFragColor;\nvoid main()\n" ++
          "ENTRY { glFragColor = vec4(1.0); }\n").toList := by
  refine ⟨?_, by decide, by decide⟩
  unfold OnDirective
  decide

end Rules

end Shading
