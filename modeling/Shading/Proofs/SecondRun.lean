import Shading.Proofs.Rematching
import Shading.Proofs.Switches

/-!
    A second run over a shader.

    A shader to which nothing was pruned comes out of a built-in dialect in such a form that the dialect
    finds nothing more to do (`Rules.Done`): no declaration to adapt, no directive to delete and no word
    to rename. Each pass brings about its own part of this and keeps the parts of the passes before it,
    since the words that a table writes, in keywords, names and the declaration of an output, are not
    those that its rules look for (`Rules.Inert`).

        adapt declarations ──▶ settled
        rename             ──▶ settled, spent
        insert             ──▶ settled, spent, and an output if there is an entry point

    What is inserted declares an output, so a second run does not insert again. -/

namespace Shading

/-- The words by which an output declaration is known. -/
def outputWords : List String := ["layout", "location", "out"]

/-- The tests for the beginning of an output declaration. -/
def outputTests : List (Piece → Bool) :=
  [(·.isWord "layout"), (·.isMark '('), (·.isWord "location"), (·.isMark '='), (·.isNumber "0"),
    (·.isMark ')'), (·.isWord "out")]

namespace Rules

/-- What a table writes calls for none of its rules. -/
structure Inert (rules : Rules) : Prop where
  lawful : rules.Lawful
  renews : ∀ stage, rules.Renews stage
  /-- New keywords stand in no switch. -/
  keywords : ∀ stage, ∀ new ∈ [rules.attributeKeyword, rules.varyingKeyword stage],
    new ∉ switchWords rules.prunedExtensions
  /-- Names, old or new, stand in no switch and declare nothing. -/
  names : ∀ r ∈ rules.renames,
    ∀ word ∈ switchWords rules.prunedExtensions ++ declaringWords ++ outputWords,
      r.source ≠ word ∧ r.target ≠ word
  /-- The words of the declaration stand in no switch, declare nothing else and have no other name. -/
  words : ∀ p ∈ (Reading.of rules.outputDeclaration.toList).pieces, p.isMark '#' = false ∧
    ∀ word ∈ switchWords rules.prunedExtensions ++ declaringWords ++ rules.renames.map (·.source),
      p.isWord word = false
  output : beginsOutput (Reading.of rules.outputDeclaration.toList).pieces = true
  pruned : rules.multiTargetExtension ∈ rules.prunedExtensions

theorem inert_of_builtin {rules : Rules} (h : rules = glsl300es ∨ rules = glsl450) :
    rules.Inert where
  lawful := lawful_of_builtin h
  renews := renews_of_builtin h
  keywords stage := by rcases h with rfl | rfl <;> cases stage <;> decide
  names := by rcases h with rfl | rfl <;> decide
  words := by rcases h with rfl | rfl <;> decide
  output := by rcases h with rfl | rfl <;> decide
  pruned := by rcases h with rfl | rfl <;> decide

/-- The pieces call for no rule: there is no declaration to adapt, no directive to delete and no word to
    rename. -/
structure Done (rules : Rules) (stage : Stage) (ps : List Piece) : Prop where
  settled : rules.Settled stage .first ps
  unswitched : hasSwitch rules.prunedExtensions true ps = false
  spent : Spent (rules.spelling? stage) ps

end Rules

/-! ### Renamed words -/

section

variable {f : Piece → List Piece → Option String}

/-- Renaming other words leaves no declaration to adapt where there was none. -/
theorem Rules.Settled.respell {rules : Rules} {stage : Stage} (hf : Avoids declaringWords f) :
    ∀ {spot : Spot} {ps : List Piece}, rules.Settled stage spot ps →
      rules.Settled stage spot (respell f ps)
  | _, [], _ => trivial
  | spot, p :: ps, h => by
    rw [Shading.respell]
    cases hnew : f p ps with
    | none => exact ⟨h.1, h.2.respell hf⟩
    | some new =>
      have hold := fun word hword => (hf p ps new hnew word hword).1
      have hword : ∀ word ∈ declaringWords, Piece.isWord ⟨p.gap, p.kind, new.toList⟩ word = false := by
        intro word hword
        rw [Bool.eq_false_iff]
        exact fun h => (hf p ps new hnew word hword).2 (String.toList_inj.mp (isWord_text h))
      rw [Option.map_some, Option.getD_some, settled_cons_of_not_declaring hword]
      exact ((settled_cons_of_not_declaring hold).mp h).respell hf

/-- What begins so still does when all its words stay. -/
theorem begins_respell {tests : List (Piece → Bool)}
    (hf : ∀ p ps new, f p ps = some new → ∀ fits ∈ tests, fits p = false) {ps : List Piece}
    (h : begins tests ps = true) : begins tests (respell f ps) = true := by
  induction ps generalizing tests with
  | nil => exact h
  | cons p ps ih =>
    cases tests with
    | nil => rw [begins]
    | cons fits tests =>
      rw [begins, Bool.and_eq_true] at h
      have hps := ih (fun p ps new hnew g hg => hf p ps new hnew g (List.mem_cons_of_mem _ hg)) h.2
      rw [respell]
      cases hnew : f p ps with
      | none => rw [begins, Bool.and_eq_true]; exact ⟨h.1, hps⟩
      | some new =>
        rw [hf p ps new hnew fits List.mem_cons_self] at h
        exact Bool.noConfusion h.1

theorem exists_respell_append (f : Piece → List Piece → Option String) (behind : List Piece) :
    ∀ front : List Piece, ∃ front', respell f (front ++ behind) = front' ++ respell f behind
  | [] => ⟨[], rfl⟩
  | p :: front => by
    obtain ⟨front', h⟩ := exists_respell_append f behind front
    rw [List.cons_append, respell, h]
    exact ⟨_ :: front', rfl⟩

end

/-! ### Inserted declarations -/

section

variable {t : Text} {r : Reading} (rest : Text)

theorem Rules.Settled.behind {rules : Rules} {stage : Stage} {ps : List Piece}
    (h : rules.Settled stage .later ps) : ∀ {ds : List Piece},
      (∀ q ∈ ds, ∀ word ∈ declaringWords, q.isWord word = false) →
        rules.Settled stage .later (ds ++ ps)
  | [], _ => h
  | q :: ds, hds => by
    rw [List.forall_mem_cons] at hds
    exact (settled_cons_of_not_declaring hds.1).mpr (h.behind hds.2)

/-- A declaration without the old keywords in front of entry points leaves nothing to adapt. -/
theorem Rules.Settled.declare {rules : Rules} {stage : Stage}
    (hd : ∀ q ∈ (r.cons ⟨[], .word, t⟩).pieces, ∀ word ∈ declaringWords, q.isWord word = false) :
    ∀ {spot : Spot} {ps : List Piece}, rules.Settled stage spot ps →
      rules.Settled stage spot (declare (r.cons ⟨[], .word, t⟩) ps rest).pieces
  | _, [], _ => trivial
  | spot, p :: ps, h => by
    cases hentry : beginsEntry (p :: ps) with
    | true =>
      have hvoid : ∀ word ∈ declaringWords, p.isWord word = false := fun word hword =>
        isWord_eq_false_of_ne (isWord_of_beginsEntry hentry) (by rintro rfl; revert hword; decide)
      -- behind the old first word of the line nothing is awaited, and so it is behind the new one
      have hps := ((settled_cons_of_not_declaring hvoid).mp h).declare hd
      obtain ⟨hfirst, hlater⟩ := List.forall_mem_cons.mp hd
      rw [declare_of_beginsEntry hentry]
      refine (settled_cons_of_not_declaring (p := ⟨p.gap, .word, t⟩) hfirst).mpr ?_
      refine Settled.behind ?_ hlater
      exact (settled_cons_of_not_declaring (p := ⟨r.rest, p.kind, p.text⟩) hvoid).mpr hps
    | false =>
      rw [declare_of_not_beginsEntry hentry]
      exact ⟨h.1, h.2.declare hd⟩

theorem opensCall_declare : ∀ ps : List Piece,
    opensCall (declare (r.cons ⟨[], .word, t⟩) ps rest).pieces = opensCall ps
  | [] => rfl
  | p :: ps => by
    cases hentry : beginsEntry (p :: ps) with
    | true =>
      rw [declare_of_beginsEntry hentry, opensCall, opensCall, List.head?_cons, List.head?_cons,
        Option.any_some, Option.any_some, Piece.isMark, Piece.isMark, kind_of_beginsEntry hentry]
    | false =>
      rw [declare_of_not_beginsEntry hentry]
      rfl

theorem Spent.behind {renames : List Rename} {f : Piece → List Piece → Option String}
    (hf : FollowsList renames f) {ps : List Piece} (h : Spent f ps) : ∀ {ds : List Piece},
      (∀ q ∈ ds, ∀ x ∈ renames, q.isWord x.source = false) → Spent f (ds ++ ps)
  | [], _ => h
  | q :: ds, hds => by
    rw [List.forall_mem_cons] at hds
    exact ⟨hf.eq_none hds.1 _, h.behind hf hds.2⟩

/-- A declaration without old names in front of entry points leaves nothing to rename. -/
theorem Spent.declare {renames : List Rename} {f : Piece → List Piece → Option String}
    (hf : FollowsList renames f)
    (hd : ∀ q ∈ (r.cons ⟨[], .word, t⟩).pieces, ∀ x ∈ renames, q.isWord x.source = false)
    (hvoid : ∀ x ∈ renames, x.source ≠ "void") : ∀ {ps : List Piece}, Spent f ps →
      Spent f (declare (r.cons ⟨[], .word, t⟩) ps rest).pieces
  | [], _ => trivial
  | p :: ps, h => by
    have hps := h.2.declare hf hd hvoid
    cases hentry : beginsEntry (p :: ps) with
    | true =>
      have hword : ∀ x ∈ renames, p.isWord x.source = false := fun x hx =>
        isWord_eq_false_of_ne (isWord_of_beginsEntry hentry) (hvoid x hx).symm
      obtain ⟨hfirst, hlater⟩ := List.forall_mem_cons.mp hd
      rw [declare_of_beginsEntry hentry]
      refine ⟨hf.eq_none (p := ⟨p.gap, .word, t⟩) hfirst _, Spent.behind hf ?_ hlater⟩
      exact ⟨hf.eq_none (p := ⟨r.rest, p.kind, p.text⟩) hword _, hps⟩
    | false =>
      rw [declare_of_not_beginsEntry hentry]
      exact ⟨(hf.called p _ _ (opensCall_declare rest ps)).trans h.1, hps⟩

theorem declare_of_no_entry (d : Reading) : ∀ {ps : List Piece},
    (∀ front behind, ps = front ++ behind → beginsEntry behind = false) →
      declare d ps rest = ⟨ps, rest⟩
  | [], _ => rfl
  | p :: ps, h => by
    have hps := fun front behind heq => h (p :: front) behind (congrArg (p :: ·) heq)
    rw [declare_of_not_beginsEntry (h [] _ rfl), declare_of_no_entry d hps]
    rfl

theorem entryPoints_eq_nil {s : Text}
    (h : ∀ front behind, (Reading.of s).pieces = front ++ behind → beginsEntry behind = false) :
    entryPoints s = [] := by
  rw [entryPoints, tokens_eq]
  exact (occurrences_eq_nil_iff beginsAs_entryShape rfl 0 true _).mpr h

theorem beginsOutput_eq (ps : List Piece) : beginsOutput ps = begins outputTests ps := by
  match ps with
  | p₁ :: p₂ :: p₃ :: p₄ :: p₅ :: p₆ :: p₇ :: ps =>
    simp only [beginsOutput, begins, outputTests, Bool.and_true, Bool.and_assoc]
  | [] => rfl
  | [_] => simp [beginsOutput, begins, outputTests]
  | [_, _] => simp [beginsOutput, begins, outputTests]
  | [_, _, _] => simp [beginsOutput, begins, outputTests]
  | [_, _, _, _] => simp [beginsOutput, begins, outputTests]
  | [_, _, _, _, _] => simp [beginsOutput, begins, outputTests]
  | [_, _, _, _, _, _] => simp [beginsOutput, begins, outputTests]

theorem begins_append (qs : List Piece) : ∀ {tests : List (Piece → Bool)} {ps : List Piece},
    begins tests ps = true → begins tests (ps ++ qs) = true
  | [], _, _ => by rw [begins]
  | _ :: _, [], h => Bool.noConfusion h
  | fits :: tests, p :: ps, h => by
    rw [begins, Bool.and_eq_true] at h
    rw [List.cons_append, begins, Bool.and_eq_true]
    exact ⟨h.1, begins_append qs h.2⟩

/-- With a declaration of an output in front of every entry point, there is one, or no entry point. -/
theorem no_entry_or_output (hd : beginsOutput (r.cons ⟨[], .word, t⟩).pieces = true) :
    ∀ ps : List Piece, (∀ front behind, ps = front ++ behind → beginsEntry behind = false) ∨
      ∃ front behind, (declare (r.cons ⟨[], .word, t⟩) ps rest).pieces = front ++ behind ∧
        beginsOutput behind = true
  | [] => Or.inl fun front behind h => by rw [(List.nil_eq_append_iff.mp h).2]; rfl
  | p :: ps => by
    cases hentry : beginsEntry (p :: ps) with
    | true =>
      refine Or.inr ⟨[], _, rfl, ?_⟩
      rw [beginsOutput_eq] at hd
      rw [declare_of_beginsEntry hentry, beginsOutput_eq]
      exact begins_append _ hd
    | false =>
      rw [declare_of_not_beginsEntry hentry]
      rcases no_entry_or_output hd ps with hnone | ⟨front, behind, hcut, hout⟩
      · left
        intro front behind h
        rcases List.cons_eq_append_iff.mp h with ⟨-, rfl⟩ | ⟨front', rfl, hps⟩
        · exact hentry
        · exact hnone front' behind hps
      · exact Or.inr ⟨p :: front, behind, congrArg (p :: ·) hcut, hout⟩

end

namespace Rules

/-! ### What the passes bring about -/

section

variable {rules : Rules} {stage : Stage}

theorem followsList_spelling? (rules : Rules) (stage : Stage) :
    FollowsList rules.renames (rules.spelling? stage) where
  listed := rules.lists_spelling? stage
  called p ps qs h := by
    unfold spelling?
    rw [(followsList_calledSpelling? rules.intrinsicCalls).called p ps qs h]

theorem Inert.avoids (h : rules.Inert) (stage : Stage) {words : List String}
    (hsub : words ⊆ switchWords rules.prunedExtensions ++ declaringWords ++ outputWords) :
    Avoids words (rules.spelling? stage) :=
  (rules.lists_spelling? stage).avoids fun r hr word hword => h.names r hr word (hsub hword)

/-- Adapting declarations makes no switch. -/
theorem Inert.hasSwitch_redeclare (h : rules.Inert) (stage : Stage) {ps : List Piece}
    (hps : hasSwitch rules.prunedExtensions true ps = false) :
    hasSwitch rules.prunedExtensions true (rules.redeclare stage .first ps) = false := by
  refine hasSwitch_of_reworded (reworded_redeclare (fun new hnew word hword heq => ?_) .first ps) hps
  rw [← String.toList_inj.mp heq] at hword
  exact h.keywords stage new hnew hword

/-- Renaming makes no switch. -/
theorem Inert.hasSwitch_respell (h : rules.Inert) {ps : List Piece}
    (hps : hasSwitch rules.prunedExtensions true ps = false) :
    hasSwitch rules.prunedExtensions true (respell (rules.spelling? stage) ps) = false := by
  have havoids := h.avoids stage (List.subset_append_of_subset_left _ (List.subset_append_left _ _))
  refine hasSwitch_of_reworded (reworded_respell (fun p ps new hnew => ⟨?_, ?_⟩) ps) hps
  · obtain ⟨r, -, hword, -⟩ := rules.lists_spelling? stage p ps new hnew
    exact isWord_kind hword
  · intro word hword heq
    exact (havoids p ps new hnew word hword).2 (String.toList_inj.mp heq)

/-- Renaming finishes a shader without declarations to adapt and directives to delete. -/
theorem Inert.done_respell (h : rules.Inert) {ps : List Piece}
    (hsettled : rules.Settled stage .first ps)
    (hps : hasSwitch rules.prunedExtensions true ps = false) :
    rules.Done stage (respell (rules.spelling? stage) ps) where
  settled := hsettled.respell (h.avoids stage
    (List.subset_append_of_subset_left _ (List.subset_append_right _ _)))
  unswitched := h.hasSwitch_respell hps
  spent := (rules.followsList_spelling? stage).spent_respell h.lawful.apart ps

/-- The declaration of an output gives no rule anything to do. -/
theorem Inert.done_declare (h : rules.Inert) {ps : List Piece} (hdone : rules.Done stage ps)
    (rest : Text) :
    rules.Done stage (declare (Reading.of rules.outputDeclaration.toList) ps rest).pieces := by
  obtain ⟨t, r, hof⟩ := Reading.exists_of_letter h.lawful.letter
  have hd := h.words
  rw [hof] at hd ⊢
  refine ⟨hdone.settled.declare rest fun q hq word hword => ?_,
    hasSwitch_declare rest (fun q hq => (hd q hq).1) (fun word hword => ?_) hdone.unswitched,
    hdone.spent.declare rest (rules.followsList_spelling? stage) (fun q hq x hx => ?_)
      fun x hx => (h.lawful.entry x hx "void" List.mem_cons_self).1⟩
  · exact (hd q hq).2 word (List.mem_append_left _ (List.mem_append_right _ hword))
  · exact (hd _ List.mem_cons_self).2 word
      (List.mem_append_left _ (List.mem_append_left _ hword))
  · exact (hd q hq).2 x.source (List.mem_append_right _ (List.mem_map_of_mem hx))

/-- In a text without switches only the declaration of an output counts as one. -/
theorem Inert.hasOwnOutput_eq (h : rules.Inert) {s : Text}
    (hs : hasSwitch rules.prunedExtensions true (Reading.of s).pieces = false) :
    rules.hasOwnOutput s = hasOutputDeclaration s := by
  have hnone : hasExtension rules.multiTargetExtension Pragma.switchedOn s = false := by
    rw [← any_pragmas, List.any_eq_false] at hs
    rw [hasExtension, List.any_eq_false]
    intro p hp hswitched
    rw [Bool.and_eq_true] at hswitched
    refine hs p hp (Bool.and_eq_true_iff.mpr ⟨?_, hswitched.2⟩)
    have hname := hswitched.1
    rw [Pragma.names, List.any_cons, List.any_nil, Bool.or_false] at hname
    exact List.any_eq_true.mpr ⟨rules.multiTargetExtension, h.pruned, hname⟩
  rw [hasOwnOutput, hnone, Bool.false_or]

/-- Renaming keeps the declarations of outputs. -/
theorem Inert.hasOutputDeclaration_respell (h : rules.Inert) {s t : Text}
    (hof : Reading.of t = (Reading.of s).respell (rules.spelling? stage))
    (hs : hasOutputDeclaration s = true) : hasOutputDeclaration t = true := by
  rw [hasOutputDeclaration_iff] at hs ⊢
  obtain ⟨front, behind, hcut, hout⟩ := hs
  obtain ⟨front', hrespell⟩ := exists_respell_append (rules.spelling? stage) behind front
  refine ⟨front', respell (rules.spelling? stage) behind, ?_, ?_⟩
  · rw [hof, Reading.respell, hcut, hrespell]
  · rw [beginsOutput_eq] at hout ⊢
    refine begins_respell (fun p ps new hnew => ?_) hout
    obtain ⟨r, -, hsource, -⟩ := rules.lists_spelling? stage p ps new hnew
    have hkind := isWord_kind hsource
    have hwords : ∀ word ∈ outputWords, p.isWord word = false := fun word hword =>
      (h.avoids stage (List.subset_append_right _ _) p ps new hnew word hword).1
    simp only [outputWords, List.forall_mem_cons] at hwords
    simp [outputTests, Piece.isMark, Piece.isNumber, hkind, hwords]

/-- Where the declaration went in front of every entry point, there is an output or no entry point. -/
theorem Inert.output_or_no_entry (h : rules.Inert) {t : Text} {ps : List Piece} {rest : Text}
    (hof : Reading.of t = declare (Reading.of rules.outputDeclaration.toList) ps rest) :
    hasOutputDeclaration t = true ∨ entryPoints t = [] := by
  obtain ⟨w, r, hd⟩ := Reading.exists_of_letter h.lawful.letter
  have hout := h.output
  rw [hd] at hof hout
  rcases no_entry_or_output rest hout ps with hnone | hsome
  · right
    apply entryPoints_eq_nil
    rw [hof, declare_of_no_entry rest _ hnone]
    exact hnone
  · left
    rw [hasOutputDeclaration_iff, hof]
    exact hsome

/-! ### A shader with nothing left to do -/

section

variable {t : Text}

theorem Done.adaptDeclarations_eq (h : rules.Inert) (hdone : rules.Done stage (Reading.of t).pieces)
    (name : String) : (Dialect.ruled name rules).adaptDeclarations stage t = t := by
  apply eq_of_of_eq
  rw [of_adaptDeclarations (h.renews stage), hdone.settled.redeclare_eq]

theorem Done.prune_eq (hdone : rules.Done stage (Reading.of t).pieces) :
    pruneExtensions rules.prunedExtensions t = t :=
  (pruneExtensions_eq_self_iff rules.prunedExtensions t).mpr hdone.unswitched

theorem Done.respell_eq (hdone : rules.Done stage (Reading.of t).pieces) :
    (Reading.of t).respell (rules.spelling? stage) = Reading.of t := by
  rw [Reading.respell, hdone.spent.respell_eq]

/-- A shader that calls for no rule, and for no declaration of an output, stays as it is. -/
theorem Done.finish_eq (h : rules.Inert) (hdone : rules.Done stage (Reading.of t).pieces)
    {defines : DefineSet}
    (hmultiview : stage = .vertex → defines.contains rules.multiviewSymbol.toList = false)
    (hout : stage = .fragment → rules.hasOwnOutput t = true ∨ entryPoints t = []) :
    rules.finish defines stage t = t := by
  cases stage with
  | vertex =>
    have hcommon : rules.common t = t := eq_of_of_eq (by
      rw [h.lawful.of_common, hdone.prune_eq, hdone.respell_eq])
    rw [finish, hmultiview rfl, if_neg Bool.false_ne_true, hcommon]
  | fragment =>
    have hrenamed : renameWords rules.fragmentOutputs (rules.common t) = t := eq_of_of_eq (by
      rw [h.lawful.of_renamed, hdone.prune_eq, hdone.respell_eq])
    rw [finish, hrenamed]
    rcases hout rfl with hown | hnone
    · rw [if_pos hown]
    · rw [insertBeforeEntryPoints, hnone, List.map_nil, splice_nil, ite_self]

end

/-- Finishing leaves a shader with adapted declarations and no directive to delete in such a form, and
    in the fragment stage with an output if there is an entry point. -/
theorem Inert.finish_done (h : rules.Inert) {s : Text}
    (hsettled : rules.Settled stage .first (Reading.of s).pieces)
    (hs : hasSwitch rules.prunedExtensions true (Reading.of s).pieces = false) {defines : DefineSet}
    (hmultiview : stage = .vertex → defines.contains rules.multiviewSymbol.toList = false) :
    rules.Done stage (Reading.of (rules.finish defines stage s)).pieces ∧
      (stage = .fragment → rules.hasOwnOutput (rules.finish defines stage s) = true ∨
        entryPoints (rules.finish defines stage s) = []) := by
  have hprune := (pruneExtensions_eq_self_iff rules.prunedExtensions s).mpr hs
  have hdone := h.done_respell hsettled hs
  cases stage with
  | vertex =>
    refine ⟨?_, fun hstage => Stage.noConfusion hstage⟩
    rw [finish, hmultiview rfl, if_neg Bool.false_ne_true, h.lawful.of_common, hprune]
    exact hdone
  | fragment =>
    have hof := h.lawful.of_renamed s
    rw [hprune] at hof
    cases hown : rules.hasOwnOutput s with
    | true =>
      rw [finish, if_pos hown, hof]
      refine ⟨hdone, fun _ => Or.inl ?_⟩
      -- no directive is left that would count as an output, so there is a declaration, which stays
      rw [h.hasOwnOutput_eq hs] at hown
      rw [h.hasOwnOutput_eq (by rw [hof]; exact hdone.unswitched)]
      exact h.hasOutputDeclaration_respell hof hown
    | false =>
      have hinsert := of_insertBeforeEntryPoints h.lawful.declaration h.lawful.letter
        (renameWords rules.fragmentOutputs (rules.common s))
      rw [hof] at hinsert
      have hdeclared := h.done_declare hdone (Reading.of s).rest
      rw [finish, hown, if_neg Bool.false_ne_true]
      refine ⟨by rw [hinsert]; exact hdeclared, fun _ => ?_⟩
      rw [h.hasOwnOutput_eq (by rw [hinsert]; exact hdeclared.unswitched)]
      exact h.output_or_no_entry hinsert

end

end Rules

/-- A second run of a built-in dialect changes nothing, if pruning does not change the shader to begin
    with and no multiview header is put in front: it adapts no declaration again, finds no directive to
    delete, and declares no second output. -/
theorem adapt_again {rules : Rules} (h : rules = Rules.glsl300es ∨ rules = Rules.glsl450)
    (name : String) (defines : DefineSet) (stage : Stage) (s : Text)
    (hprune : pruneExtensions rules.prunedExtensions s = s)
    (hmultiview : stage = .vertex → defines.contains "MULTIVIEW".toList = false) :
    let dialect := Dialect.ruled name rules
    let t := dialect.adapt defines stage s
    dialect.adapt defines stage t = t ∧
    dialect.adaptDeclarations stage t = t ∧
    pruneExtensions rules.prunedExtensions t = t ∧
    (∀ p ∈ pragmas t,
      ¬(p.names rules.prunedExtensions = true ∧ p.behaves Pragma.switchedOn = true)) ∧
    (stage = .fragment → rules.hasOwnOutput t = true ∨ entryPoints t = []) := by
  intro dialect t
  have hinert := Rules.inert_of_builtin h
  have hsymbol : rules.multiviewSymbol = "MULTIVIEW" := by rcases h with rfl | rfl <;> rfl
  rw [← hsymbol] at hmultiview
  -- what the first pass leaves: no declaration to adapt, and still no directive to delete
  have hdeclarations := Rules.of_adaptDeclarations (hinert.renews stage) name s
  have hsettled : rules.Settled stage .first
      (Reading.of (dialect.adaptDeclarations stage s)).pieces := by
    rw [hdeclarations]
    exact Rules.settled_redeclare (hinert.renews stage) .first _
  have hunswitched : hasSwitch rules.prunedExtensions true
      (Reading.of (dialect.adaptDeclarations stage s)).pieces = false := by
    rw [hdeclarations]
    exact hinert.hasSwitch_redeclare stage ((pruneExtensions_eq_self_iff _ s).mp hprune)
  obtain ⟨hdone, hout⟩ := hinert.finish_done hsettled hunswitched hmultiview
  have hadapt : dialect.adaptDeclarations stage t = t := hdone.adaptDeclarations_eq hinert name
  refine ⟨?_, hadapt, hdone.prune_eq, fun p hp hpruned => ?_, hout⟩
  · rw [Dialect.adapt, hadapt]
    exact hdone.finish_eq hinert hmultiview hout
  · have hnone := hdone.unswitched
    rw [← any_pragmas, List.any_eq_false] at hnone
    exact hnone p hp (Bool.and_eq_true_iff.mpr hpruned)

/-- A fragment shader with its declaration, a call and its entry point on one line, and a vertex shader
    whose define set does not ask for multiview. -/
theorem adapt_again_shaders :
    let s := "flat varying vec2 v; void main(){gl_FragColor=texture2D(t,v);}".toList
    let t := ("flat in vec2 v; layout(location = 0) out vec4 glFragColor;\n" ++
      "void main(){glFragColor=texture(t,v);}").toList
    let defines : DefineSet := { names := ["SKIN".toList] }
    (Rules.glsl300es = Rules.glsl300es ∨ Rules.glsl300es = Rules.glsl450) ∧
    pruneExtensions Rules.glsl300es.prunedExtensions s = s ∧
    pruneExtensions Rules.glsl300es.prunedExtensions "attribute vec4 a;".toList =
      "attribute vec4 a;".toList ∧
    defines.contains "MULTIVIEW".toList = false ∧
    Dialect.glsl300es.adapt defines .fragment s = t ∧
    Dialect.glsl300es.adapt defines .fragment t = t ∧
    Dialect.glsl300es.adapt defines .vertex
        (Dialect.glsl300es.adapt defines .vertex "attribute vec4 a;".toList) =
      "in vec4 a;".toList := by
  intro s t defines
  have hrules : Rules.glsl300es = Rules.glsl300es ∨ Rules.glsl300es = Rules.glsl450 := Or.inl rfl
  have hprune : pruneExtensions Rules.glsl300es.prunedExtensions s = s := by decide
  have hprune' : pruneExtensions Rules.glsl300es.prunedExtensions "attribute vec4 a;".toList =
      "attribute vec4 a;".toList := by decide
  have hdefines : defines.contains "MULTIVIEW".toList = false := by decide
  have hfragment : Dialect.glsl300es.adapt defines .fragment s = t := by decide
  have hvertex : Dialect.glsl300es.adapt defines .vertex "attribute vec4 a;".toList =
      "in vec4 a;".toList := by decide
  have hagain := (adapt_again hrules "glsl300es" defines .fragment s hprune fun _ => hdefines).1
  have hagain' := (adapt_again hrules "glsl300es" defines .vertex _ hprune' fun _ => hdefines).1
  refine ⟨hrules, hprune, hprune', hdefines, hfragment, ?_, hagain'.trans hvertex⟩
  rw [← hfragment]
  exact hagain

end Shading
