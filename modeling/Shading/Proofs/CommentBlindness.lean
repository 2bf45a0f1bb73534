import Shading.Proofs.BlankedComments
import Shading.Proofs.ChangedGaps
import Shading.Proofs.Rematching

/-!
    What comments hold does not count.

    A question that is answered by the tokens has the same answer for a text and for the text with
    blanked comments. A pass that changes the reading of a text piece by piece, and sees nothing of a
    gap but whether there is a newline in it, does the same to both, so that blanking before it and
    blanking after it come to the same (`commutes_blanked`). -/

namespace Shading

/-! ### Passes that commute with blanking -/

/-- A pass that changes the reading alike, with blanked gaps or not. -/
theorem commutes_blanked {pass : Text → Text} (F : Reading → Reading)
    (hpass : ∀ s, Reading.of (pass s) = F (Reading.of s)) (hF : ∀ r, F r.blanked = (F r).blanked) :
    Function.Commute pass blanked := by
  intro s
  apply eq_of_of_eq
  rw [hpass, of_blanked, hF, of_blanked, hpass]

theorem keepsLines_blanked : KeepsLines blanked := contains_newline_blanked

theorem renameWords_commutes_blanked {renames : List Rename}
    (h : ∀ r ∈ renames, spellsWord r.target.toList = true) :
    Function.Commute (renameWords renames) blanked :=
  commutes_blanked (Reading.respell fun p _ => newSpelling? renames p) (of_renameWords h) fun r =>
    congrArg (Reading.mk · (blanked r.rest))
      (respell_regap (fun p _ => newSpelling?_regap renames p) r.pieces)

theorem renameCalls_commutes_blanked {renames : List Rename}
    (h : ∀ r ∈ renames, spellsWord r.target.toList = true) :
    Function.Commute (renameCalls renames) blanked :=
  commutes_blanked (Reading.respell (calledSpelling? renames)) (of_renameCalls h) fun r =>
    congrArg (Reading.mk · (blanked r.rest))
      (respell_regap (calledSpelling?_regap renames) r.pieces)

theorem Rules.Renews.adaptDeclarations_commutes_blanked {rules : Rules} {stage : Stage}
    (h : rules.Renews stage) (name : String) :
    Function.Commute ((Dialect.ruled name rules).adaptDeclarations stage) blanked :=
  commutes_blanked (fun r => ⟨rules.redeclare stage .first r.pieces, r.rest⟩)
    (of_adaptDeclarations h name) fun r =>
      congrArg (Reading.mk · (blanked r.rest))
        (keepsLines_blanked.redeclare_regap rules stage .first r.pieces)

/-- A declaration without comments goes in front of the same words. -/
theorem declare_blanked {t : Text} {r : Reading} (hplain : r.blanked = r) (rest : Text) :
    ∀ ps : List Piece, declare (r.cons ⟨[], .word, t⟩) (ps.map Piece.blanked) (blanked rest) =
      (declare (r.cons ⟨[], .word, t⟩) ps rest).blanked
  | [] => rfl
  | p :: ps => by
    have ih := declare_blanked (t := t) hplain rest ps
    have hentry : beginsEntry ((p :: ps).map Piece.blanked) = beginsEntry (p :: ps) :=
      beginsEntry_regap (p :: ps)
    rw [List.map_cons] at hentry ⊢
    cases hbegins : beginsEntry (p :: ps) with
    | true =>
      have hgaps : r.pieces.map Piece.blanked = r.pieces := congrArg Reading.pieces hplain
      have hrest : blanked r.rest = r.rest := congrArg Reading.rest hplain
      rw [declare_of_beginsEntry (hentry.trans hbegins), ih, declare_of_beginsEntry hbegins]
      simp only [Reading.blanked, List.map_cons, List.map_append, hgaps, Piece.blanked, hrest]
    | false =>
      rw [declare, hentry, hbegins, ih, declare, hbegins]
      rfl

theorem insertBeforeEntryPoints_commutes_blanked {new : String} (hnew : WholeLines new.toList)
    (hletter : new.toList.head?.any beginsWord = true) (hplain : blanked new.toList = new.toList) :
    Function.Commute (insertBeforeEntryPoints new) blanked := by
  refine commutes_blanked (fun q => declare (Reading.of new.toList) q.pieces q.rest)
    (of_insertBeforeEntryPoints hnew hletter) fun q => ?_
  obtain ⟨t, r, hof⟩ := Reading.exists_of_letter hletter
  have hd : (r.cons ⟨[], .word, t⟩).blanked = r.cons ⟨[], .word, t⟩ := by
    rw [← hof, ← of_blanked, hplain]
  have hr : r.blanked = r := by
    simp only [Reading.blanked, Reading.cons, List.map_cons, Reading.mk.injEq, List.cons.injEq] at hd
    rw [Reading.blanked, hd.1.2, hd.2]
  simp only [hof]
  exact declare_blanked hr q.rest q.pieces

/-! ### Questions that the tokens answer -/

theorem hasExtension_blanked (extension : String) (behaviors : List String) (s : Text) :
    hasExtension extension behaviors (blanked s) = hasExtension extension behaviors s := by
  refine hasExtension_congr ?_ extension behaviors
  rw [pragmas, tokens_blanked]
  exact Pragma.statement_among_congr rfl (blanked s) s

theorem hasOutputDeclaration_blanked (s : Text) :
    hasOutputDeclaration (blanked s) = hasOutputDeclaration s := by
  rw [hasOutputDeclaration, hasOutputDeclaration, tokens_blanked]

theorem entryPoints_blanked (s : Text) : entryPoints (blanked s) = entryPoints s := by
  rw [entryPoints, entryPoints, tokens_blanked]

/-! ### The built-in dialects -/

theorem Dialect.adaptDeclarations_commutes_blanked {dialect : Dialect} (h : dialect ∈ builtin)
    (stage : Stage) : Function.Commute (dialect.adaptDeclarations stage) blanked := by
  simp only [builtin, List.mem_cons, List.not_mem_nil, or_false] at h
  rcases h with rfl | rfl | rfl
  · intro s
    rw [glsl100, adaptDeclarations_neutral, adaptDeclarations_neutral]
  · exact (Rules.renews_of_builtin (Or.inl rfl) stage).adaptDeclarations_commutes_blanked _
  · exact (Rules.renews_of_builtin (Or.inr rfl) stage).adaptDeclarations_commutes_blanked _

/-- The declaration of a built-in table holds no comment. -/
theorem Rules.blanked_outputDeclaration {rules : Rules} (h : rules = glsl300es ∨ rules = glsl450) :
    blanked rules.outputDeclaration.toList = rules.outputDeclaration.toList := by
  rcases h with rfl | rfl <;> decide

/-- What the comments of a text hold does not count: blanking them changes no token and no place of a
    token, no answer about directives, outputs and entry points, and comes to the same before and after
    the declarations of a built-in dialect are adapted, words or calls are renamed by a list of a
    built-in table, or its declaration is inserted. -/
theorem comments_do_not_count (s : Text) :
    tokens (blanked s) = tokens s ∧
    (∀ extension behaviors,
      hasExtension extension behaviors (blanked s) = hasExtension extension behaviors s) ∧
    hasOutputDeclaration (blanked s) = hasOutputDeclaration s ∧
    entryPoints (blanked s) = entryPoints s ∧
    (∀ dialect ∈ Dialect.builtin, ∀ stage,
      dialect.adaptDeclarations stage (blanked s) = blanked (dialect.adaptDeclarations stage s)) ∧
    ∀ rules, rules = Rules.glsl300es ∨ rules = Rules.glsl450 →
      (∀ renames ∈ [rules.intrinsicCalls, rules.builtinRenames, rules.fragmentOutputs],
        renameCalls renames (blanked s) = blanked (renameCalls renames s) ∧
        renameWords renames (blanked s) = blanked (renameWords renames s)) ∧
      insertBeforeEntryPoints rules.outputDeclaration (blanked s) =
        blanked (insertBeforeEntryPoints rules.outputDeclaration s) := by
  refine ⟨tokens_blanked s, fun extension behaviors => hasExtension_blanked extension behaviors s,
    hasOutputDeclaration_blanked s, entryPoints_blanked s,
    fun dialect h stage => Dialect.adaptDeclarations_commutes_blanked h stage s, fun rules h => ?_⟩
  have hlawful := Rules.lawful_of_builtin h
  refine ⟨fun renames hrenames => ?_, insertBeforeEntryPoints_commutes_blanked hlawful.declaration
    hlawful.letter (Rules.blanked_outputDeclaration h) s⟩
  have hsub : renames ⊆ rules.renames := by
    simp only [List.mem_cons, List.not_mem_nil, or_false] at hrenames
    rcases hrenames with rfl | rfl | rfl
    · exact rules.intrinsicCalls_subset
    · exact rules.builtinRenames_subset
    · exact rules.fragmentOutputs_subset
  have hwords : ∀ r ∈ renames, spellsWord r.target.toList = true := fun r hr =>
    hlawful.words r (hsub hr)
  exact ⟨renameCalls_commutes_blanked hwords s, renameWords_commutes_blanked hwords s⟩

/-- A comment with a letter of two bytes in front of a declaration, and one with a newline behind it in a
    call. -/
theorem comments_do_not_count_glsl300es :
    Dialect.glsl300es ∈ Dialect.builtin ∧
    (Rules.glsl300es = Rules.glsl300es ∨ Rules.glsl300es = Rules.glsl450) ∧
    Rules.glsl300es.intrinsicCalls ∈ [Rules.glsl300es.intrinsicCalls,
      Rules.glsl300es.builtinRenames, Rules.glsl300es.fragmentOutputs] ∧
    blanked (Dialect.glsl300es.adaptDeclarations .fragment "/*é*/varying v;".toList) =
      "      in v;".toList ∧
    blanked (renameCalls Rules.glsl300es.intrinsicCalls "texture2D//(\n(t)/*".toList) =
      "texture   \n(t)  ".toList := by
  have hdialect : Dialect.glsl300es ∈ Dialect.builtin := by simp [Dialect.builtin]
  have hrules : Rules.glsl300es = Rules.glsl300es ∨ Rules.glsl300es = Rules.glsl450 := Or.inl rfl
  have hrenames := List.mem_cons_self (a := Rules.glsl300es.intrinsicCalls)
    (l := [Rules.glsl300es.builtinRenames, Rules.glsl300es.fragmentOutputs])
  have hdeclarations := (comments_do_not_count "/*é*/varying v;".toList).2.2.2.2.1
    Dialect.glsl300es hdialect .fragment
  have hcalls := ((comments_do_not_count "texture2D//(\n(t)/*".toList).2.2.2.2.2
    Rules.glsl300es hrules).1 _ hrenames
  exact ⟨hdialect, hrules, hrenames, hdeclarations.symm.trans (by decide),
    hcalls.1.symm.trans (by decide)⟩

end Shading
