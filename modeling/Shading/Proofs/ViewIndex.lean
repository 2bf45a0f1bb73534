import Shading.Proofs.SecondRun

/-!
    What sets the two built-in tables apart.

    The tables for GLSL ES 3.00 and Vulkan GLSL 4.50 differ in the name of the view index and in what a
    multiview vertex shader begins with. The view index is renamed behind the calls, but in front of the
    outputs and of the insertion of a declaration. It might as well be renamed at the very end: two lists
    that share no name can be renamed in either order, and renaming and inserting can change places where
    the declaration holds no old name and no word of an entry point is renamed (`Inert.commute_insert`).
    So what the one table makes of a shader is what the other makes of it, with the view index renamed,
    and but for the header. -/

namespace Shading

/-! ### Renaming and inserting -/

section

variable {renames : List Rename} {f : Piece → List Piece → Option String}

/-- What follows a list follows every longer one. -/
theorem FollowsList.mono {renames' : List Rename} (hf : FollowsList renames f)
    (hsub : renames ⊆ renames') : FollowsList renames' f where
  listed p ps new hnew := by
    obtain ⟨x, hx, hword⟩ := hf.listed p ps new hnew
    exact ⟨x, hsub hx, hword⟩
  called := hf.called

/-- Pieces that are no old names stay as they are. -/
theorem FollowsList.respell_behind (hf : FollowsList renames f) (ps : List Piece) :
    ∀ {ds : List Piece}, (∀ q ∈ ds, ∀ x ∈ renames, q.isWord x.source = false) →
      respell f (ds ++ ps) = ds ++ respell f ps
  | [], _ => rfl
  | q :: ds, hds => by
    rw [List.forall_mem_cons] at hds
    rw [List.cons_append, respell, hf.eq_none hds.1, hf.respell_behind ps hds.2]
    rfl

/-- A declaration that holds no old name is put in front of the same words, before the renaming or
    behind it. -/
theorem FollowsList.respell_declare (hf : FollowsList renames f) (havoid : Avoids ["void", "main"] f)
    (hvoid : ∀ x ∈ renames, x.source ≠ "void") {t : Text} {r : Reading}
    (hd : ∀ q ∈ (r.cons ⟨[], .word, t⟩).pieces, ∀ x ∈ renames, q.isWord x.source = false)
    (rest : Text) : ∀ ps : List Piece,
      declare (r.cons ⟨[], .word, t⟩) (respell f ps) rest =
        (declare (r.cons ⟨[], .word, t⟩) ps rest).respell f
  | [] => rfl
  | p :: ps => by
    have ih := hf.respell_declare havoid hvoid hd rest ps
    have hentry := beginsEntry_respell havoid (p :: ps)
    obtain ⟨hfirst, hlater⟩ := List.forall_mem_cons.mp hd
    rw [respell] at hentry ⊢
    cases hbegins : beginsEntry (p :: ps) with
    | true =>
      -- an entry point begins with `void`, which keeps its name behind whatever gap
      have hword : ∀ x ∈ renames, p.isWord x.source = false := fun x hx =>
        isWord_eq_false_of_ne (isWord_of_beginsEntry hbegins) (hvoid x hx).symm
      have hp : ∀ (gap : Text) (qs : List Piece), f ⟨gap, p.kind, p.text⟩ qs = none :=
        fun gap qs => hf.eq_none (p := ⟨gap, p.kind, p.text⟩) hword qs
      rw [hp p.gap] at hentry ⊢
      rw [declare_of_beginsEntry (hentry.trans hbegins), declare_of_beginsEntry hbegins, ih]
      simp [Reading.respell, respell, hf.eq_none (p := ⟨p.gap, .word, t⟩) hfirst,
        hf.respell_behind _ hlater, hp r.rest]
    | false =>
      rw [declare_of_not_beginsEntry (hentry.trans hbegins), declare_of_not_beginsEntry hbegins, ih,
        ← hf.called p _ _ (opensCall_declare rest ps)]
      rfl

end

namespace Rules

/-- Renaming by a list of the table and inserting its declaration can change places. -/
theorem Inert.commute_insert {rules : Rules} (h : rules.Inert) {renames : List Rename}
    (hsub : renames ⊆ rules.renames) {pass : Text → Text} (hpass : RenamesBy renames pass) :
    Function.Commute pass (insertBeforeEntryPoints rules.outputDeclaration) := by
  obtain ⟨f, hlist, hof⟩ := hpass
  have hf : FollowsList rules.renames f := hlist.mono hsub
  have hlists : rules.Lists f := hf.listed
  obtain ⟨t, r, hd⟩ := Reading.exists_of_letter h.lawful.letter
  have hvoid : ∀ x ∈ rules.renames, x.source ≠ "void" := fun x hx =>
    (h.lawful.entry x hx "void" List.mem_cons_self).1
  have hwords : ∀ q ∈ (r.cons ⟨[], .word, t⟩).pieces, ∀ x ∈ rules.renames,
      q.isWord x.source = false := by
    intro q hq x hx
    rw [← hd] at hq
    exact (h.words q hq).2 x.source (List.mem_append_right _ (List.mem_map_of_mem hx))
  intro s
  apply eq_of_of_eq
  rw [hof, of_insertBeforeEntryPoints h.lawful.declaration h.lawful.letter,
    of_insertBeforeEntryPoints h.lawful.declaration h.lawful.letter, hof, hd]
  exact (hf.respell_declare (hlists.avoids h.lawful.entry) hvoid hwords _ _).symm

/-! ### The two tables -/

/-- The name of the view index in Vulkan GLSL 4.50. -/
def viewIndex : List Rename := [⟨"gl_ViewID_OVR", "gl_ViewIndex"⟩]

/-- In what every stage undergoes, the view index is renamed last. -/
theorem common_glsl450 (s : Text) :
    glsl450.common s = renameWords viewIndex (glsl300es.common s) := by
  have hcommon : glsl300es.common s = renameCalls glsl300es.intrinsicCalls
      (pruneExtensions glsl300es.prunedExtensions s) := renameWords_nil _
  rw [hcommon]
  rfl

/-- In a fragment shader the view index can be renamed behind the outputs and the declaration. -/
theorem finish_glsl450_fragment (defines : DefineSet) (s : Text) :
    glsl450.finish defines .fragment s =
      renameWords viewIndex (glsl300es.finish defines .fragment s) := by
  have h := inert_of_builtin (Or.inr (rfl : glsl450 = glsl450))
  have houtputs : Function.Commute (renameWords glsl450.builtinRenames)
      (renameWords glsl450.fragmentOutputs) :=
    h.lawful.commute (sources_of_builtin (Or.inr rfl)) _ (by simp [renamingPasses]) _
      (by simp [renamingPasses])
  have hinsert := h.commute_insert glsl450.builtinRenames_subset h.lawful.renamesBy.2.1
  have hrenamed : renameWords glsl450.fragmentOutputs (glsl450.common s) =
      renameWords viewIndex (renameWords glsl300es.fragmentOutputs (glsl300es.common s)) := by
    rw [common_glsl450]
    exact (houtputs _).symm
  have hown : glsl450.hasOwnOutput s = glsl300es.hasOwnOutput s := rfl
  rw [finish, finish, hown, hrenamed]
  split
  · rfl
  · exact (hinsert _).symm

/-- The table for Vulkan GLSL 4.50 makes of a shader what the one for GLSL ES 3.00 makes of it, with
    the view index renamed; and of a multiview vertex shader the same behind the header. -/
theorem finish_glsl450_eq (defines : DefineSet) (stage : Stage) (s : Text) :
    (¬(stage = .vertex ∧ "MULTIVIEW".toList ∈ defines.names) →
      glsl450.finish defines stage s =
        renameWords viewIndex (glsl300es.finish defines stage s)) ∧
    (stage = .vertex → "MULTIVIEW".toList ∈ defines.names → ∃ t,
      glsl300es.finish defines stage s = glsl300es.multiviewHeader.toList ++ t ∧
      glsl450.finish defines stage s =
        glsl450.multiviewHeader.toList ++ renameWords viewIndex t) := by
  cases stage with
  | fragment => exact ⟨fun _ => finish_glsl450_fragment defines s, Stage.noConfusion⟩
  | vertex =>
    have hcommon := common_glsl450 s
    have hcontains : defines.contains "MULTIVIEW".toList = true ↔
        "MULTIVIEW".toList ∈ defines.names := List.contains_iff_mem
    constructor
    · intro hnot
      have hsymbol : ¬ defines.contains "MULTIVIEW".toList = true := fun h =>
        hnot ⟨rfl, hcontains.mp h⟩
      exact (if_neg hsymbol).trans (hcommon.trans (congrArg _ (if_neg hsymbol).symm))
    · intro _ hsymbol
      have hsymbol := hcontains.mpr hsymbol
      exact ⟨glsl300es.common s, if_pos hsymbol, (if_pos hsymbol).trans (congrArg _ hcommon)⟩

/-- The set of the symbol of multiview. -/
def multiviewOnly : DefineSet where
  names := ["MULTIVIEW".toList]

/-- A fragment shader with the view index in front of an output, and a multiview vertex shader. -/
theorem finish_glsl450_eq_view_index :
    (¬(Stage.fragment = .vertex ∧ "MULTIVIEW".toList ∈ multiviewOnly.names) ∧
      glsl450.finish multiviewOnly .fragment
          "void main(){gl_FragColor=f(gl_ViewID_OVR);}".toList =
        ("layout(location = 0) out vec4 glFragColor;\n" ++
          "void main(){glFragColor=f(gl_ViewIndex);}").toList) ∧
    (Stage.vertex = .vertex ∧ "MULTIVIEW".toList ∈ multiviewOnly.names ∧
      ∃ t, glsl300es.finish multiviewOnly .vertex "uint v=gl_ViewID_OVR;".toList =
          glsl300es.multiviewHeader.toList ++ t ∧
        glsl450.finish multiviewOnly .vertex "uint v=gl_ViewID_OVR;".toList =
          glsl450.multiviewHeader.toList ++ renameWords viewIndex t) := by
  have hstage : ¬(Stage.fragment = .vertex ∧ "MULTIVIEW".toList ∈ multiviewOnly.names) := by simp
  have hsymbol : "MULTIVIEW".toList ∈ multiviewOnly.names := List.mem_cons_self
  exact ⟨⟨hstage, ((finish_glsl450_eq _ .fragment _).1 hstage).trans (by decide)⟩,
    rfl, hsymbol, (finish_glsl450_eq _ .vertex _).2 rfl hsymbol⟩

end Rules

end Shading
