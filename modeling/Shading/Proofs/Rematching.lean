import Mathlib.Logic.Function.Conjugate
import Shading.Proofs.Redeclaring
import Shading.Proofs.SinglePass

/-!
    Rules that do not match what they wrote.

    A pass that renames by a list changes words of the reading by themselves, except that a call is known
    by the parenthesis behind it, and no renaming touches that (`RenamesBy`). So a second pass finds
    nothing to do where no new name is an old one, and two passes can change places where moreover no
    word is in both lists. Adapting declarations leaves nothing to adapt, since a new keyword begins no
    declaration of the neutral syntax. All this holds of the built-in tables on every text. -/

namespace Shading

/-! ### New spellings by a list -/

/-- The next token is an opening parenthesis. -/
def opensCall (ps : List Piece) : Bool := ps.head?.any (·.isMark '(')

/-- The new spellings come from a list of renames, and of what follows a piece only an opening
    parenthesis counts. -/
structure FollowsList (renames : List Rename) (f : Piece → List Piece → Option String) : Prop where
  listed : ∀ p ps new, f p ps = some new →
    ∃ r ∈ renames, p.isWord r.source = true ∧ r.target = new
  called : ∀ p ps qs, opensCall ps = opensCall qs → f p ps = f p qs

/-- No piece has a new spelling. -/
def Spent (f : Piece → List Piece → Option String) : List Piece → Prop
  | [] => True
  | p :: ps => f p ps = none ∧ Spent f ps

theorem followsList_newSpelling? (renames : List Rename) :
    FollowsList renames fun p _ => newSpelling? renames p where
  listed _ _ _ hnew := exists_of_newSpelling? hnew
  called _ _ _ _ := rfl

theorem followsList_calledSpelling? (renames : List Rename) :
    FollowsList renames (calledSpelling? renames) where
  listed _ _ _ hnew := exists_of_newSpelling? (newSpelling?_of_called hnew)
  called p ps qs h := by
    rw [opensCall, opensCall] at h
    rw [calledSpelling?, calledSpelling?, h]

theorem opensCall_respell (f : Piece → List Piece → Option String) : ∀ ps : List Piece,
    opensCall (respell f ps) = opensCall ps
  | [] => rfl
  | _ :: _ => rfl

section

variable {renames renames' : List Rename} {f g : Piece → List Piece → Option String}

/-- A word without an entry has no new spelling. -/
theorem FollowsList.eq_none (hf : FollowsList renames f) {p : Piece}
    (h : ∀ r ∈ renames, p.isWord r.source = false) (ps : List Piece) : f p ps = none := by
  rw [Option.eq_none_iff_forall_ne_some]
  intro new hnew
  obtain ⟨r, hr, hword, -⟩ := hf.listed p ps new hnew
  rw [h r hr] at hword
  exact Bool.noConfusion hword

/-- A new name is not renamed again, if it is no old name. -/
theorem FollowsList.eq_none_of_target (hf : FollowsList renames f) (hg : FollowsList renames' g)
    (hapart : ∀ r ∈ renames, ∀ r' ∈ renames', r.target ≠ r'.source) (p : Piece) (ps qs : List Piece)
    (new : String) (hnew : f p ps = some new) : g ⟨p.gap, p.kind, new.toList⟩ qs = none := by
  obtain ⟨r, hr, -, rfl⟩ := hf.listed p ps new hnew
  refine hg.eq_none (fun r' hr' => ?_) qs
  rw [Bool.eq_false_iff]
  intro hword
  exact hapart r hr r' hr' (String.toList_inj.mp (isWord_text hword))

theorem FollowsList.respell_respell (hf : FollowsList renames f) (hg : FollowsList renames' g)
    (hapart : ∀ r ∈ renames, ∀ r' ∈ renames', r.target ≠ r'.source) (ps : List Piece) :
    respell g (respell f ps) = respell (fun p ps => (f p ps).or (g p ps)) ps :=
  Shading.respell_respell (hf.eq_none_of_target hg hapart)
    (fun p ps => hg.called p _ _ (opensCall_respell f ps)) ps

theorem Spent.respell_eq : ∀ {ps : List Piece}, Spent f ps → respell f ps = ps
  | [], _ => rfl
  | p :: ps, h => by
    rw [respell, h.1, h.2.respell_eq]
    rfl

/-- Respelled pieces have no new spelling. -/
theorem FollowsList.spent_respell (hf : FollowsList renames f)
    (hapart : ∀ r ∈ renames, ∀ r' ∈ renames, r.target ≠ r'.source) : ∀ ps : List Piece,
      Spent f (respell f ps)
  | [] => trivial
  | p :: ps => by
    rw [respell]
    refine ⟨?_, hf.spent_respell hapart ps⟩
    cases hnew : f p ps with
    | none => exact (hf.called p _ _ (opensCall_respell f ps)).trans hnew
    | some new => exact hf.eq_none_of_target hf hapart p ps _ new hnew

/-- Two lists that share no old name do not both rename a word. -/
theorem FollowsList.or_comm (hf : FollowsList renames f) (hg : FollowsList renames' g)
    (hsources : ∀ r ∈ renames, ∀ r' ∈ renames', r.source ≠ r'.source) (p : Piece)
    (ps : List Piece) : (f p ps).or (g p ps) = (g p ps).or (f p ps) := by
  cases hnew : f p ps with
  | none => rw [Option.none_or, Option.or_none]
  | some new =>
    obtain ⟨r, hr, hword, -⟩ := hf.listed p ps new hnew
    have hnone : g p ps = none := by
      refine hg.eq_none (fun r' hr' => ?_) ps
      rw [Bool.eq_false_iff]
      exact fun hword' => hsources r hr r' hr' (p.isWord_inj _ _ hword hword')
    rw [hnone, Option.or_none, Option.none_or]

end

/-! ### Passes over a text -/

/-- On the reading of a text the pass renames words by a list and changes nothing else. -/
def RenamesBy (renames : List Rename) (pass : Text → Text) : Prop :=
  ∃ f, FollowsList renames f ∧ ∀ s, Reading.of (pass s) = (Reading.of s).respell f

section

variable {renames renames' : List Rename} {pass pass' : Text → Text}

theorem renamesBy_renameWords (h : ∀ r ∈ renames, spellsWord r.target.toList = true) :
    RenamesBy renames (renameWords renames) :=
  ⟨_, followsList_newSpelling? renames, of_renameWords h⟩

theorem renamesBy_renameCalls (h : ∀ r ∈ renames, spellsWord r.target.toList = true) :
    RenamesBy renames (renameCalls renames) :=
  ⟨_, followsList_calledSpelling? renames, of_renameCalls h⟩

/-- Texts with the same reading are the same. -/
theorem eq_of_of_eq {s s' : Text} (h : Reading.of s = Reading.of s') : s = s' := by
  rw [← Reading.text_of s, h, Reading.text_of]

/-- A second pass finds nothing to rename. -/
theorem RenamesBy.idempotent (h : RenamesBy renames pass)
    (hapart : ∀ r ∈ renames, ∀ r' ∈ renames, r.target ≠ r'.source) (s : Text) :
    pass (pass s) = pass s := by
  obtain ⟨f, hf, hpass⟩ := h
  apply eq_of_of_eq
  rw [hpass, hpass, Reading.respell, Reading.respell, (hf.spent_respell hapart _).respell_eq]

/-- Two passes can change places. -/
theorem RenamesBy.comm (h : RenamesBy renames pass) (h' : RenamesBy renames' pass')
    (hapart : ∀ r ∈ renames, ∀ r' ∈ renames', r.target ≠ r'.source)
    (hapart' : ∀ r' ∈ renames', ∀ r ∈ renames, r'.target ≠ r.source)
    (hsources : ∀ r ∈ renames, ∀ r' ∈ renames', r.source ≠ r'.source) (s : Text) :
    pass (pass' s) = pass' (pass s) := by
  obtain ⟨f, hf, hpass⟩ := h
  obtain ⟨g, hg, hpass'⟩ := h'
  have hor : (fun p ps => (g p ps).or (f p ps)) = fun p ps => (f p ps).or (g p ps) :=
    funext fun p => funext fun ps => (hf.or_comm hg hsources p ps).symm
  apply eq_of_of_eq
  rw [hpass, hpass', hpass', hpass, Reading.respell, Reading.respell, Reading.respell,
    Reading.respell, hg.respell_respell hf hapart', hf.respell_respell hg hapart, hor]

end

namespace Rules

/-! ### The built-in tables -/

section

variable {rules : Rules} (h : rules = glsl300es ∨ rules = glsl450)
include h

theorem lawful_of_builtin : rules.Lawful := by
  rcases h with rfl | rfl
  · exact lawful_glsl300es
  · exact lawful_glsl450

theorem renews_of_builtin (stage : Stage) : rules.Renews stage := by
  rcases h with rfl | rfl <;> cases stage <;> unfold Renews <;> decide

/-- No word is an old name twice. -/
theorem sources_of_builtin : rules.renames.Pairwise fun r r' => r.source ≠ r'.source := by
  rcases h with rfl | rfl <;> decide

end

/-- The three renaming passes of a table, in the order in which a fragment shader undergoes them. -/
def renamingPasses (rules : Rules) : List (Text → Text) :=
  [renameCalls rules.intrinsicCalls, renameWords rules.builtinRenames,
    renameWords rules.fragmentOutputs]

section

variable {rules : Rules}

/-- Each renaming pass follows a list of the table. -/
theorem Lawful.renamesBy (h : rules.Lawful) :
    RenamesBy rules.intrinsicCalls (renameCalls rules.intrinsicCalls) ∧
      RenamesBy rules.builtinRenames (renameWords rules.builtinRenames) ∧
      RenamesBy rules.fragmentOutputs (renameWords rules.fragmentOutputs) :=
  ⟨renamesBy_renameCalls fun r hr => h.words r (rules.intrinsicCalls_subset hr),
    renamesBy_renameWords fun r hr => h.words r (rules.builtinRenames_subset hr),
    renamesBy_renameWords fun r hr => h.words r (rules.fragmentOutputs_subset hr)⟩

/-- Where no new name is an old one, each pass finds nothing to do in what it wrote. -/
theorem Lawful.idempotent (h : rules.Lawful) :
    ∀ pass ∈ rules.renamingPasses, ∀ s, pass (pass s) = pass s := by
  have hself : ∀ {renames : List Rename} {pass : Text → Text}, renames ⊆ rules.renames →
      RenamesBy renames pass → ∀ s, pass (pass s) = pass s := fun hsub hpass s =>
    hpass.idempotent (fun r hr r' hr' => h.apart r (hsub hr) r' (hsub hr')) s
  obtain ⟨hcalls, hbuiltins, houtputs⟩ := h.renamesBy
  rw [renamingPasses, List.forall_mem_cons, List.forall_mem_cons, List.forall_mem_singleton]
  exact ⟨hself rules.intrinsicCalls_subset hcalls, hself rules.builtinRenames_subset hbuiltins,
    hself rules.fragmentOutputs_subset houtputs⟩

/-- Where moreover no word is an old name twice, any two passes can change places. -/
theorem Lawful.commute (h : rules.Lawful)
    (hsources : rules.renames.Pairwise fun r r' => r.source ≠ r'.source) :
    ∀ pass ∈ rules.renamingPasses, ∀ pass' ∈ rules.renamingPasses,
      Function.Commute pass pass' := by
  have hpair : ∀ {renames renames' : List Rename} {pass pass' : Text → Text},
      renames ⊆ rules.renames → renames' ⊆ rules.renames →
      RenamesBy renames pass → RenamesBy renames' pass' →
      (∀ r ∈ renames, ∀ r' ∈ renames', r.source ≠ r'.source) → Function.Commute pass pass' :=
    fun hsub hsub' hpass hpass' hne s => hpass.comm hpass'
      (fun r hr r' hr' => h.apart r (hsub hr) r' (hsub' hr'))
      (fun r' hr' r hr => h.apart r' (hsub' hr') r (hsub hr)) hne s
  obtain ⟨hcalls, hbuiltins, houtputs⟩ := h.renamesBy
  rw [renames, List.pairwise_append, List.pairwise_append] at hsources
  obtain ⟨⟨-, -, hne⟩, -, hneOutputs⟩ := hsources
  have hcb := hpair rules.intrinsicCalls_subset rules.builtinRenames_subset hcalls hbuiltins hne
  have hco := hpair rules.intrinsicCalls_subset rules.fragmentOutputs_subset hcalls houtputs
    fun r hr => hneOutputs r (List.mem_append_left _ hr)
  have hbo := hpair rules.builtinRenames_subset rules.fragmentOutputs_subset hbuiltins houtputs
    fun r hr => hneOutputs r (List.mem_append_right _ hr)
  intro pass hpass pass' hpass'
  simp only [renamingPasses, List.mem_cons, List.not_mem_nil, or_false] at hpass hpass'
  rcases hpass with rfl | rfl | rfl
  · rcases hpass' with rfl | rfl | rfl
    · exact Function.Commute.refl _
    · exact hcb
    · exact hco
  · rcases hpass' with rfl | rfl | rfl
    · exact hcb.symm
    · exact Function.Commute.refl _
    · exact hbo
  · rcases hpass' with rfl | rfl | rfl
    · exact hco.symm
    · exact hbo.symm
    · exact Function.Commute.refl _

end

/-- Adapting declarations leaves no declaration to adapt. -/
theorem Renews.idempotent {rules : Rules} {stage : Stage} (h : rules.Renews stage) (name : String)
    (s : Text) :
    (Dialect.ruled name rules).adaptDeclarations stage
        ((Dialect.ruled name rules).adaptDeclarations stage s) =
      (Dialect.ruled name rules).adaptDeclarations stage s := by
  apply eq_of_of_eq
  rw [of_adaptDeclarations h, of_adaptDeclarations h,
    (settled_redeclare h .first _).redeclare_eq]

/-- No rule of a built-in table matches what it wrote: adapting the declarations for a stage a second
    time changes nothing, nor does any of the three renaming passes, and the three give the same text in
    every order. -/
theorem builtin_rules_settle {rules : Rules} (h : rules = glsl300es ∨ rules = glsl450)
    (name : String) (s : Text) :
    (∀ stage, (Dialect.ruled name rules).adaptDeclarations stage
        ((Dialect.ruled name rules).adaptDeclarations stage s) =
      (Dialect.ruled name rules).adaptDeclarations stage s) ∧
    (∀ pass ∈ rules.renamingPasses, pass (pass s) = pass s) ∧
    ∀ passes : List (Text → Text), passes.Perm rules.renamingPasses →
      passes.foldl (fun s pass => pass s) s =
        renameWords rules.fragmentOutputs (renameWords rules.builtinRenames
          (renameCalls rules.intrinsicCalls s)) := by
  have hlawful := lawful_of_builtin h
  refine ⟨fun stage => (renews_of_builtin h stage).idempotent name s,
    fun pass hpass => hlawful.idempotent pass hpass s, fun passes hperm => ?_⟩
  have hcommute := hlawful.commute (sources_of_builtin h)
  refine hperm.foldl_eq' (fun pass hpass pass' hpass' s => ?_) s
  exact hcommute pass' (hperm.subset hpass') pass (hperm.subset hpass) s

/-- A line with two keywords, a line with one behind a qualifier, and a call behind a comment. -/
theorem builtin_rules_settle_glsl450 :
    (glsl450 = glsl300es ∨ glsl450 = glsl450) ∧
      Dialect.glsl450.adaptDeclarations .vertex
          (Dialect.glsl450.adaptDeclarations .vertex
            "attribute varying a;\nflat varying varying;".toList) =
        "in varying a;\nflat out varying;".toList ∧
      [renameWords glsl450.fragmentOutputs, renameCalls glsl450.intrinsicCalls,
          renameWords glsl450.builtinRenames].foldl (fun s pass => pass s)
          "texture2D/*(*/\n(gl_ViewID_OVR,gl_FragColor,texture2D)".toList =
        "texture/*(*/\n(gl_ViewIndex,glFragColor,texture2D)".toList := by
  have h : glsl450 = glsl300es ∨ glsl450 = glsl450 := Or.inr rfl
  have hperm : ([renameWords glsl450.fragmentOutputs] ++ [renameCalls glsl450.intrinsicCalls,
      renameWords glsl450.builtinRenames]).Perm glsl450.renamingPasses := List.perm_append_comm
  exact ⟨h, ((builtin_rules_settle h "glsl450" _).1 .vertex).trans (by decide),
    ((builtin_rules_settle h "glsl450" _).2.2 _ hperm).trans (by decide)⟩

end Rules

end Shading
