import Shading.Proofs.Insertion
import Shading.Proofs.Pruning

/-!
    Switched extensions along the reading.

    A directive that pruning deletes is a switch: a `#` that is the first token on its line, and behind it
    on that line `extension`, the name of one of the extensions, a colon, and a behavior that switches it
    on. Seen along the pieces of a text it is a `#` with four more pieces that pass their tests
    (`begins`), and a text is pruned to itself just when it holds no switch
    (`pruneExtensions_eq_self_iff`). New words in place of old ones make no switch unless they can stand in
    one, and neither does a declaration in front of an entry point. -/

namespace Shading

/-- The pieces begin with pieces that pass the tests, one by one. -/
def begins : List (Piece → Bool) → List Piece → Bool
  | [], _ => true
  | _ :: _, [] => false
  | fits :: tests, p :: ps => fits p && begins tests ps

/-- The piece passes the test and does not begin a line. -/
def onLine (fits : Piece → Bool) (p : Piece) : Bool := !p.gap.contains '\n' && fits p

/-- What stands behind the `#` of a switch, apart from line ends. -/
def statementTests (extensions : List String) : List (Piece → Bool) :=
  [(·.isWord "extension"), fun p => extensions.any p.isWord, (·.isMark ':'),
    fun p => Pragma.switchedOn.any p.isWord]

/-- What stands behind the `#` of a switch. -/
def switchTests (extensions : List String) : List (Piece → Bool) :=
  (statementTests extensions).map onLine

/-- The pieces hold a switch. `fresh` says that no token stands in front of them on the line. -/
def hasSwitch (extensions : List String) : Bool → List Piece → Bool
  | _, [] => false
  | fresh, p :: ps =>
    p.isMark '#' && (fresh || p.gap.contains '\n') && begins (switchTests extensions) ps ||
      hasSwitch extensions false ps

/-- The words that can stand in a switch. -/
def switchWords (extensions : List String) : List String :=
  "extension" :: extensions ++ Pragma.switchedOn

/-! ### Directives and switches -/

theorem any_isWord (words : List String) (p : Piece) :
    words.any p.isWord = (p.kind == .word && words.any (·.toList == p.text)) := by
  induction words with
  | nil => rw [List.any_nil, List.any_nil, Bool.and_false]
  | cons word words ih =>
    rw [List.any_cons, List.any_cons, ih, Piece.isWord, Bool.and_or_distrib_left,
      Bool.beq_comm (a := p.text)]

theorem begins_map_onLine : ∀ (tests : List (Piece → Bool)) (ps : List Piece),
    begins (tests.map onLine) ps = begins tests (ps.takeWhile fun p => !p.gap.contains '\n')
  | [], ps => by rw [List.map_nil, begins, begins]
  | _ :: _, [] => rfl
  | fits :: tests, p :: ps => by
    rw [List.map_cons, begins, onLine, List.takeWhile_cons]
    cases p.gap.contains '\n' with
    | true => rfl
    | false =>
      rw [Bool.not_false, if_pos rfl, Bool.true_and, begins, begins_map_onLine tests ps]

/-- The tokens on the line of the one before are those of the pieces before the next line end. -/
theorem takeWhile_locate : ∀ (n : Nat) (ps : List Piece),
    (locate n false ps).takeWhile (!·.lineStart) =
      locate n false (ps.takeWhile fun p => !p.gap.contains '\n')
  | _, [] => rfl
  | n, p :: ps => by
    rw [locate, List.takeWhile_cons, List.takeWhile_cons, Bool.false_or]
    cases hgap : p.gap.contains '\n' with
    | true => rfl
    | false => rw [Bool.not_false, if_pos rfl, if_pos rfl, takeWhile_locate, locate, hgap, Bool.false_or]

/-- A directive states a switch where the tests are passed. -/
theorem stated?_locate (extensions : List String) (n : Nat) (ps : List Piece) :
    (Pragma.stated? (locate n false ps)).any (fun x =>
      extensions.any (·.toList == x.1) && Pragma.switchedOn.any (·.toList == x.2)) =
    begins (switchTests extensions) ps := by
  rw [Pragma.stated?, takeWhile_locate, switchTests, begins_map_onLine]
  have hword : ∀ (p : Piece) (k : Nat) (fresh : Bool),
      Token.isWord ⟨p.kind, p.text, k, fresh⟩ = p.isWord := fun _ _ _ => rfl
  have hmark : ∀ (p : Piece) (k : Nat) (fresh : Bool),
      Token.isMark ⟨p.kind, p.text, k, fresh⟩ = p.isMark := fun _ _ _ => rfl
  generalize ps.takeWhile (fun p => !p.gap.contains '\n') = qs
  rcases qs with _ | ⟨p₁, _ | ⟨p₂, _ | ⟨p₃, _ | ⟨p₄, qs⟩⟩⟩⟩
  · rfl
  · simp [locate, statementTests, begins]
  · simp [locate, statementTests, begins]
  · simp [locate, statementTests, begins]
  · simp only [locate, statementTests, begins, any_isWord, hword, hmark]
    cases p₁.isWord "extension" <;> cases p₂.kind == .word <;> cases p₃.isMark ':' <;>
      cases p₄.kind == .word <;> simp

theorem any_among (extensions : List String) (s : Text) : ∀ (n : Nat) (fresh : Bool) (ps : List Piece),
    (Pragma.among s (locate n fresh ps)).any
        (fun p => p.names extensions && p.behaves Pragma.switchedOn) =
      hasSwitch extensions fresh ps
  | _, _, [] => rfl
  | n, fresh, p :: ps => by
    have ih := any_among extensions s (n + p.gap.byteSize + p.text.byteSize) false ps
    have hstated := stated?_locate extensions (n + p.gap.byteSize + p.text.byteSize) ps
    have hhead : (Token.isMark ⟨p.kind, p.text, n + p.gap.byteSize, fresh || p.gap.contains '\n'⟩ '#' &&
        (fresh || p.gap.contains '\n')) = (p.isMark '#' && (fresh || p.gap.contains '\n')) := rfl
    rw [locate, Pragma.among, hhead, hasSwitch, ← hstated]
    cases p.isMark '#' && (fresh || p.gap.contains '\n') with
    | false => rw [if_neg Bool.false_ne_true, ih, Bool.false_and, Bool.false_or]
    | true =>
      rw [if_pos rfl, Bool.true_and]
      cases Pragma.stated? (locate (n + p.gap.byteSize + p.text.byteSize) false ps) with
      | none => exact ih
      | some x => rw [List.any_cons, ih]; rfl

/-- A text has directives that pruning deletes when its pieces hold a switch. -/
theorem any_pragmas (extensions : List String) (s : Text) :
    ((pragmas s).any fun p => p.names extensions && p.behaves Pragma.switchedOn) =
      hasSwitch extensions true (Reading.of s).pieces := by
  rw [pragmas, tokens_eq, any_among]

/-! ### Pruning without effect -/

/-- A text is pruned to itself when it holds no switch. -/
theorem pruneExtensions_eq_self_iff (extensions : List String) (s : Text) :
    pruneExtensions extensions s = s ↔ hasSwitch extensions true (Reading.of s).pieces = false := by
  rw [← any_pragmas, List.any_eq_false]
  constructor
  · intro h p hp hpruned
    have hmem : p.deletion ∈ (prunedFrom extensions false s).map Pragma.deletion :=
      List.mem_map_of_mem (List.mem_filter.mpr ⟨hp, hpruned⟩)
    have hsplices := splices_pruneFrom extensions s false
    have hempty := (hsplices.eq_of_byteSize fun e he => by
      obtain ⟨q, -, rfl⟩ := List.mem_map.mp he
      rfl).2 (congrArg Text.byteSize h) p.deletion hmem
    exact Nat.ne_of_lt (start_lt_stop_of_mem_pragmas hp) hempty
  · intro h
    rw [pruneExtensions, List.filter_eq_nil_iff.mpr h]
    rfl

/-! ### Pieces that make no switch -/

/-- A word that cannot stand in a switch fails every test for what stands behind the `#`. -/
theorem switchTests_eq_false {extensions : List String} {p : Piece} (hkind : p.kind = .word)
    (h : ∀ word ∈ switchWords extensions, p.isWord word = false) :
    ∀ fits ∈ switchTests extensions, fits p = false := by
  have hmark : p.isMark ':' = false := by rw [Piece.isMark, hkind]; rfl
  have hnone : ∀ words : List String, words ⊆ switchWords extensions →
      words.any p.isWord = false := by
    intro words hsub
    rw [List.any_eq_false]
    intro word hword
    rw [h word (hsub hword)]
    exact Bool.false_ne_true
  have hkeyword := h "extension" List.mem_cons_self
  have hname := hnone extensions fun word hword =>
    List.mem_append_left _ (List.mem_cons_of_mem _ hword)
  have hbehavior := hnone Pragma.switchedOn fun word hword => List.mem_append_right _ hword
  simp [switchTests, statementTests, onLine, hkeyword, hname, hmark, hbehavior]

section

variable {extensions : List String} {IsNew : Text → Prop} {tests : List (Piece → Bool)}

theorem begins_of_reworded
    (hnew : ∀ fits ∈ tests, ∀ gap new, IsNew new → fits ⟨gap, .word, new⟩ = false)
    {ps qs : List Piece} (h : Reworded IsNew ps qs) (hps : begins tests ps = false) :
    begins tests qs = false := by
  induction h generalizing tests with
  | nil => exact hps
  | keep p h ih =>
    cases tests with
    | nil => rw [begins] at hps; exact Bool.noConfusion hps
    | cons fits tests =>
      rw [begins, Bool.and_eq_false_iff] at hps ⊢
      exact hps.imp_right (ih fun f hf => hnew f (List.mem_cons_of_mem _ hf))
  | reword gap old new hisNew h ih =>
    cases tests with
    | nil => rw [begins] at hps; exact Bool.noConfusion hps
    | cons fits tests => rw [begins, hnew fits List.mem_cons_self gap new hisNew, Bool.false_and]

/-- New words that cannot stand in a switch make none. -/
theorem hasSwitch_of_reworded {ps qs : List Piece}
    (h : Reworded (fun new => ∀ word ∈ switchWords extensions, new ≠ word.toList) ps qs)
    {fresh : Bool} (hps : hasSwitch extensions fresh ps = false) :
    hasSwitch extensions fresh qs = false := by
  have htests : ∀ fits ∈ switchTests extensions, ∀ gap new,
      (∀ word ∈ switchWords extensions, new ≠ word.toList) → fits ⟨gap, .word, new⟩ = false := by
    intro fits hfits gap new hnew
    refine switchTests_eq_false rfl (fun word hword => ?_) fits hfits
    rw [Bool.eq_false_iff]
    exact fun h => hnew word hword (isWord_text h)
  induction h generalizing fresh with
  | nil => rfl
  | keep p h ih =>
    rw [hasSwitch, Bool.or_eq_false_iff, Bool.and_eq_false_iff] at hps ⊢
    exact ⟨hps.1.imp_right (begins_of_reworded htests h), ih hps.2⟩
  | reword gap old new hisNew h ih =>
    rw [hasSwitch, Bool.or_eq_false_iff] at hps ⊢
    exact ⟨rfl, ih hps.2⟩

end

section

variable {extensions : List String} {t : Text} {r : Reading} (rest : Text)

theorem begins_declare {tests : List (Piece → Bool)}
    (hfirst : ∀ fits ∈ tests, ∀ gap, fits ⟨gap, .word, t⟩ = false) {ps : List Piece}
    (h : begins tests ps = false) :
    begins tests (declare (r.cons ⟨[], .word, t⟩) ps rest).pieces = false := by
  induction ps generalizing tests with
  | nil => exact h
  | cons p ps ih =>
    cases tests with
    | nil => rw [begins] at h; exact Bool.noConfusion h
    | cons fits tests =>
      cases hentry : beginsEntry (p :: ps) with
      | true =>
        rw [declare_of_beginsEntry hentry, begins, hfirst fits List.mem_cons_self, Bool.false_and]
      | false =>
        rw [declare_of_not_beginsEntry hentry, Reading.cons]
        rw [begins, Bool.and_eq_false_iff] at h ⊢
        exact h.imp_right (ih fun f hf => hfirst f (List.mem_cons_of_mem _ hf))

theorem hasSwitch_append : ∀ {ds ps : List Piece}, (∀ q ∈ ds, q.isMark '#' = false) →
    hasSwitch extensions false ps = false → hasSwitch extensions false (ds ++ ps) = false
  | [], _, _, h => h
  | q :: ds, ps, hds, h => by
    rw [List.forall_mem_cons] at hds
    rw [List.cons_append, hasSwitch, hds.1, Bool.false_and, Bool.false_and, Bool.false_or]
    exact hasSwitch_append hds.2 h

/-- A declaration in front of entry points makes no switch. -/
theorem hasSwitch_declare (hd : ∀ q ∈ (r.cons ⟨[], .word, t⟩).pieces, q.isMark '#' = false)
    (hfirst : ∀ word ∈ switchWords extensions, Piece.isWord ⟨[], .word, t⟩ word = false)
    {fresh : Bool} {ps : List Piece} (h : hasSwitch extensions fresh ps = false) :
    hasSwitch extensions fresh (declare (r.cons ⟨[], .word, t⟩) ps rest).pieces = false := by
  induction ps generalizing fresh with
  | nil => rfl
  | cons p ps ih =>
    rw [hasSwitch, Bool.or_eq_false_iff] at h
    cases hentry : beginsEntry (p :: ps) with
    | true =>
      have hvoid : ∀ gap, Piece.isMark ⟨gap, p.kind, p.text⟩ '#' = false := fun gap => by
        rw [Piece.isMark, kind_of_beginsEntry hentry]
        rfl
      rw [declare_of_beginsEntry hentry, hasSwitch, Bool.or_eq_false_iff]
      refine ⟨rfl, hasSwitch_append (fun q hq => hd q (List.mem_cons_of_mem _ hq)) ?_⟩
      rw [hasSwitch, hvoid, Bool.false_and, Bool.false_and, Bool.false_or]
      exact ih h.2
    | false =>
      rw [declare_of_not_beginsEntry hentry, Reading.cons, hasSwitch, Bool.or_eq_false_iff]
      rw [Bool.and_eq_false_iff] at h ⊢
      refine ⟨h.1.imp_right (begins_declare rest fun fits hfits gap => ?_), ih h.2⟩
      exact switchTests_eq_false (p := ⟨gap, .word, t⟩) rfl hfirst fits hfits

end

end Shading
