import Shading.Proofs.Insertion
import Shading.Rules

/-!
    The treatment of a whole shader in a single pass.

    A rule table is applied in several passes, each of which reads the text that the one before has left:
    called functions, variables and outputs are renamed in turn, then a declaration is inserted or a
    header put in front. For a table in which no new name is an old one, and that leaves the names of an
    entry point alone (`Rules.Lawful`), this is the same as one pass over the pieces of the pruned shader
    (`singlePass`): each word has its new spelling at once, each entry point has the declaration in front
    of it, and every gap stays as it is. The two built-in tables are such tables. -/

namespace Shading

/-- One pass over pieces: new spellings, and a reading `d` in front of every entry point if `declares`. -/
def singlePass (spelling? : Piece → List Piece → Option String) (declares : Bool) (d : Reading) :
    List Piece → Text → Reading
  | [], rest => ⟨[], rest⟩
  | p :: ps, rest =>
    let word := ((spelling? p ps).map String.toList).getD p.text
    if declares && beginsEntry (p :: ps) then
      (d ++ (singlePass spelling? declares d ps rest).cons ⟨[], p.kind, word⟩).behind p.gap
    else (singlePass spelling? declares d ps rest).cons ⟨p.gap, p.kind, word⟩

namespace Rules

/-- The new spelling of a word: of a function where it is called, of a variable anywhere, of an output
    in the fragment stage. -/
def spelling? (rules : Rules) (stage : Stage) (p : Piece) (ps : List Piece) : Option String :=
  ((calledSpelling? rules.intrinsicCalls p ps).or (newSpelling? rules.builtinRenames p)).or
    (match stage with
      | .fragment => newSpelling? rules.fragmentOutputs p
      | .vertex => none)

/-- The shader switches multiple targets on, or holds `layout ( location = 0 ) out`. -/
def BringsOutput (rules : Rules) (s : Text) : Prop :=
  (∃ p ∈ pragmas s, p.name = rules.multiTargetExtension.toList ∧
    (p.behavior = "enable".toList ∨ p.behavior = "require".toList)) ∨
  ∃ front behind, (Reading.of s).pieces = front ++ behind ∧ beginsOutput behind = true

/-- All renames of a table. -/
def renames (rules : Rules) : List Rename :=
  rules.intrinsicCalls ++ rules.builtinRenames ++ rules.fragmentOutputs

/-- The rules of a table do not get in each other's way. -/
structure Lawful (rules : Rules) : Prop where
  /-- New names are words. -/
  words : ∀ r ∈ rules.renames, spellsWord r.target.toList = true
  /-- No new name is an old one. -/
  apart : ∀ r ∈ rules.renames, ∀ r' ∈ rules.renames, r.target ≠ r'.source
  /-- The words of an entry point are neither old nor new names. -/
  entry : ∀ r ∈ rules.renames, ∀ word ∈ ["void", "main"], r.source ≠ word ∧ r.target ≠ word
  declaration : WholeLines rules.outputDeclaration.toList
  letter : rules.outputDeclaration.toList.head?.any beginsWord = true
  header : WholeLines rules.multiviewHeader.toList

theorem lawful_glsl300es : glsl300es.Lawful where
  words := by decide
  apart := by decide
  entry := by decide
  declaration := ⟨by decide, by decide⟩
  letter := by decide
  header := ⟨by decide, by decide⟩

theorem lawful_glsl450 : glsl450.Lawful where
  words := by decide
  apart := by decide
  entry := by decide
  declaration := ⟨by decide, by decide⟩
  letter := by decide
  header := ⟨by decide, by decide⟩

end Rules

/-! ### Passes that do not interfere -/

/-- A word spelled anew is no old name, if no new name is one. -/
theorem newSpelling?_eq_none {renames : List Rename} {new : String}
    (h : ∀ r ∈ renames, new ≠ r.source) (gap : Text) (kind : Kind) :
    newSpelling? renames ⟨gap, kind, new.toList⟩ = none := by
  rw [newSpelling?, Option.map_eq_none_iff, List.find?_eq_none]
  intro r hr hword
  exact h r hr (String.toList_inj.mp (isWord_text hword))

/-- Two renamings one after the other are one, if the second one finds nothing to do in the words that
    the first one wrote, and treats all others as before. -/
theorem respell_respell {f g : Piece → List Piece → Option String}
    (hspent : ∀ p ps qs new, f p ps = some new → g ⟨p.gap, p.kind, new.toList⟩ qs = none)
    (hsame : ∀ p ps, g p (respell f ps) = g p ps) : ∀ ps : List Piece,
      respell g (respell f ps) = respell (fun p ps => (f p ps).or (g p ps)) ps
  | [] => rfl
  | p :: ps => by
    rw [respell, respell, respell, respell_respell hspent hsame ps]
    cases hnew : f p ps with
    | none => rw [← hsame p ps]; rfl
    | some new =>
      rw [Option.map_some, Option.getD_some, hspent p ps _ new hnew]
      rfl

/-- Neither the words that get a new spelling nor the new spellings are among the given words. -/
def Avoids (words : List String) (f : Piece → List Piece → Option String) : Prop :=
  ∀ p ps new, f p ps = some new → ∀ word ∈ words, p.isWord word = false ∧ new ≠ word

/-- Where an entry point begins does not change when its words stay. -/
theorem beginsEntry_respell {f : Piece → List Piece → Option String} (h : Avoids ["void", "main"] f)
    (ps : List Piece) :
    beginsEntry (respell f ps) = beginsEntry ps := by
  have hword : ∀ (p : Piece) (ps : List Piece), ∀ word ∈ ["void", "main"],
      Piece.isWord ⟨p.gap, p.kind, ((f p ps).map String.toList).getD p.text⟩ word
        = p.isWord word := by
    intro p ps word hmem
    cases hnew : f p ps with
    | none => rfl
    | some new =>
      obtain ⟨hold, hne⟩ := h p ps new hnew word hmem
      rw [hold, Bool.eq_false_iff]
      intro hnew'
      exact hne (String.toList_inj.mp (isWord_text hnew'))
  match ps with
  | [] => rfl
  | [_] => rfl
  | [_, _] => rfl
  | p₁ :: p₂ :: p₃ :: ps =>
    rw [respell, respell, respell, beginsEntry, beginsEntry, hword _ _ "void" (by simp),
      hword _ _ "main" (by simp)]
    rfl

theorem respell_eq_singlePass (f : Piece → List Piece → Option String) (d : Reading) (rest : Text) :
    ∀ ps : List Piece, (⟨respell f ps, rest⟩ : Reading) = singlePass f false d ps rest
  | [] => rfl
  | p :: ps => by
    rw [respell, singlePass, ← respell_eq_singlePass f d rest ps, Bool.false_and,
      if_neg Bool.false_ne_true]
    rfl

theorem declare_respell {f : Piece → List Piece → Option String} (h : Avoids ["void", "main"] f)
    (d : Reading) (rest : Text) : ∀ ps : List Piece,
      declare d (respell f ps) rest = singlePass f true d ps rest
  | [] => rfl
  | p :: ps => by
    have hentry := beginsEntry_respell h (p :: ps)
    rw [respell] at hentry ⊢
    rw [declare, hentry, declare_respell h d rest ps, singlePass, Bool.true_and]

/-! ### What a shader brings -/

namespace Rules

theorem hasOwnOutput_iff (rules : Rules) (s : Text) :
    rules.hasOwnOutput s = true ↔ rules.BringsOutput s := by
  rw [hasOwnOutput, Bool.or_eq_true, hasOutputDeclaration_iff, BringsOutput]
  refine or_congr_left ?_
  rw [hasExtension, List.any_eq_true]
  constructor
  · rintro ⟨p, hp, h⟩
    simp only [Pragma.names, Pragma.behaves, Pragma.switchedOn, List.any_cons, List.any_nil,
      Bool.or_false, Bool.and_eq_true, Bool.or_eq_true, beq_iff_eq] at h
    exact ⟨p, hp, h.1.symm, h.2.imp Eq.symm Eq.symm⟩
  · rintro ⟨p, hp, hname, hbehavior⟩
    refine ⟨p, hp, ?_⟩
    simp only [Pragma.names, Pragma.behaves, Pragma.switchedOn, List.any_cons, List.any_nil,
      Bool.or_false, Bool.and_eq_true, Bool.or_eq_true, beq_iff_eq]
    exact ⟨hname.symm, hbehavior.imp Eq.symm Eq.symm⟩

instance (rules : Rules) (s : Text) : Decidable (rules.BringsOutput s) :=
  decidable_of_iff _ (hasOwnOutput_iff rules s)

/-! ### The whole treatment -/

/-- Whatever the rule spells anew has an entry in the table. -/
def Lists (rules : Rules) (f : Piece → List Piece → Option String) : Prop :=
  ∀ p ps new, f p ps = some new → ∃ r ∈ rules.renames, p.isWord r.source = true ∧ r.target = new

theorem lists_newSpelling? {rules : Rules} {renames : List Rename} (h : renames ⊆ rules.renames) :
    rules.Lists fun p _ => newSpelling? renames p := by
  intro p ps new hnew
  obtain ⟨r, hr, hword, htarget⟩ := exists_of_newSpelling? hnew
  exact ⟨r, h hr, hword, htarget⟩

theorem lists_calledSpelling? {rules : Rules} {renames : List Rename} (h : renames ⊆ rules.renames) :
    rules.Lists (calledSpelling? renames) :=
  fun p ps new hnew => lists_newSpelling? h p ps new (newSpelling?_of_called hnew)

theorem Lists.or {rules : Rules} {f g : Piece → List Piece → Option String} (hf : rules.Lists f)
    (hg : rules.Lists g) : rules.Lists fun p ps => (f p ps).or (g p ps) := by
  intro p ps new hnew
  rcases Option.or_eq_some_iff.mp hnew with hnew | ⟨-, hnew⟩
  · exact hf p ps new hnew
  · exact hg p ps new hnew

theorem intrinsicCalls_subset (rules : Rules) : rules.intrinsicCalls ⊆ rules.renames :=
  fun _ hr => List.mem_append_left _ (List.mem_append_left _ hr)

theorem builtinRenames_subset (rules : Rules) : rules.builtinRenames ⊆ rules.renames :=
  fun _ hr => List.mem_append_left _ (List.mem_append_right _ hr)

theorem fragmentOutputs_subset (rules : Rules) : rules.fragmentOutputs ⊆ rules.renames :=
  fun _ hr => List.mem_append_right _ hr

/-- The renames of every stage. -/
theorem lists_common (rules : Rules) : rules.Lists fun p ps =>
    (calledSpelling? rules.intrinsicCalls p ps).or (newSpelling? rules.builtinRenames p) :=
  (lists_calledSpelling? rules.intrinsicCalls_subset).or
    (lists_newSpelling? rules.builtinRenames_subset)

theorem lists_spelling? (rules : Rules) (stage : Stage) : rules.Lists (rules.spelling? stage) := by
  refine rules.lists_common.or ?_
  cases stage with
  | vertex => exact fun p ps new hnew => absurd hnew (by simp)
  | fragment => exact lists_newSpelling? rules.fragmentOutputs_subset

/-- A second renaming finds nothing to do in the words that a first one wrote. -/
theorem Lawful.spent_of {rules : Rules} (h : rules.Lawful) {f : Piece → List Piece → Option String}
    (hf : rules.Lists f) {renames : List Rename} (hsub : renames ⊆ rules.renames) (p : Piece)
    (ps _qs : List Piece) (new : String) (hnew : f p ps = some new) :
    newSpelling? renames ⟨p.gap, p.kind, new.toList⟩ = none := by
  obtain ⟨r, hr, -, rfl⟩ := hf p ps new hnew
  exact newSpelling?_eq_none (fun r' hr' => h.apart r hr r' (hsub hr')) p.gap p.kind

/-- A rule avoids what no entry of the table names. -/
theorem Lists.avoids {rules : Rules} {f : Piece → List Piece → Option String} (hf : rules.Lists f)
    {words : List String}
    (h : ∀ r ∈ rules.renames, ∀ word ∈ words, r.source ≠ word ∧ r.target ≠ word) :
    Avoids words f := by
  intro p ps new hnew word hword
  obtain ⟨r, hr, hsource, rfl⟩ := hf p ps new hnew
  obtain ⟨hne, htarget⟩ := h r hr word hword
  refine ⟨?_, htarget⟩
  rw [Bool.eq_false_iff]
  intro hw
  exact hne (String.toList_inj.mp ((isWord_text hsource).symm.trans (isWord_text hw)))

/-- Pruning apart, the passes of every stage are one. -/
theorem Lawful.of_common {rules : Rules} (h : rules.Lawful) (s : Text) :
    Reading.of (rules.common s) =
      (Reading.of (pruneExtensions rules.prunedExtensions s)).respell (rules.spelling? .vertex) := by
  have hcalls := fun r hr => h.words r (rules.intrinsicCalls_subset hr)
  have hbuiltins := fun r hr => h.words r (rules.builtinRenames_subset hr)
  have hspent := h.spent_of (lists_calledSpelling? rules.intrinsicCalls_subset)
    rules.builtinRenames_subset
  have hspelling : rules.spelling? .vertex = fun p ps =>
      (calledSpelling? rules.intrinsicCalls p ps).or (newSpelling? rules.builtinRenames p) := by
    funext p ps
    exact Option.or_none
  rw [common, of_renameWords hbuiltins, of_renameCalls hcalls, Reading.respell, Reading.respell,
    respell_respell hspent fun _ _ => rfl, hspelling, Reading.respell]

/-- In the fragment stage the outputs are renamed in the same pass. -/
theorem Lawful.of_renamed {rules : Rules} (h : rules.Lawful) (s : Text) :
    Reading.of (renameWords rules.fragmentOutputs (rules.common s)) =
      (Reading.of (pruneExtensions rules.prunedExtensions s)).respell
        (rules.spelling? .fragment) := by
  have houtputs := fun r hr => h.words r (rules.fragmentOutputs_subset hr)
  have hspent := h.spent_of (rules.lists_spelling? .vertex) rules.fragmentOutputs_subset
  have hspelling : rules.spelling? .fragment = fun p ps =>
      (rules.spelling? .vertex p ps).or (newSpelling? rules.fragmentOutputs p) := by
    funext p ps
    rw [spelling?, spelling?, Option.or_none]
  rw [of_renameWords houtputs, h.of_common, Reading.respell, Reading.respell,
    respell_respell hspent fun _ _ => rfl, hspelling, Reading.respell]

/-- The outcome of the treatment, said in a single pass over the pieces of the pruned shader. -/
def outcome (rules : Rules) (defines : DefineSet) (stage : Stage) (s : Text) : Reading :=
  (if stage = .vertex ∧ rules.multiviewSymbol.toList ∈ defines.names then
    Reading.of rules.multiviewHeader.toList else ⟨[], []⟩) ++
  singlePass (rules.spelling? stage) (decide (stage = .fragment ∧ ¬ rules.BringsOutput s))
    (Reading.of rules.outputDeclaration.toList)
    (Reading.of (pruneExtensions rules.prunedExtensions s)).pieces
    (Reading.of (pruneExtensions rules.prunedExtensions s)).rest

/-- A fragment shader is treated in the pass alone. -/
theorem outcome_fragment (rules : Rules) (defines : DefineSet) (s : Text) :
    rules.outcome defines .fragment s =
      singlePass (rules.spelling? .fragment) (decide ¬ rules.BringsOutput s)
        (Reading.of rules.outputDeclaration.toList)
        (Reading.of (pruneExtensions rules.prunedExtensions s)).pieces
        (Reading.of (pruneExtensions rules.prunedExtensions s)).rest := by
  have hstage : ¬(Stage.fragment = .vertex ∧ rules.multiviewSymbol.toList ∈ defines.names) :=
    fun hc => Stage.noConfusion hc.1
  have hdeclares : decide (Stage.fragment = .fragment ∧ ¬ rules.BringsOutput s) =
      decide ¬ rules.BringsOutput s := by simp
  rw [outcome, if_neg hstage, Reading.nil_append, Reading.behind_nil, hdeclares]

theorem Lawful.of_finish {rules : Rules} (h : rules.Lawful) (defines : DefineSet) (stage : Stage)
    (s : Text) : Reading.of (rules.finish defines stage s) = rules.outcome defines stage s := by
  cases stage with
  | vertex =>
    have hpass : Reading.of (rules.common s) = singlePass (rules.spelling? .vertex) false
        (Reading.of rules.outputDeclaration.toList)
        (Reading.of (pruneExtensions rules.prunedExtensions s)).pieces
        (Reading.of (pruneExtensions rules.prunedExtensions s)).rest := by
      rw [h.of_common, Reading.respell, respell_eq_singlePass]
    have hstage : decide (Stage.vertex = .fragment ∧ ¬ rules.BringsOutput s) = false := by simp
    rw [finish, outcome, hstage, ← hpass, DefineSet.contains]
    by_cases hd : rules.multiviewSymbol.toList ∈ defines.names
    · rw [if_pos (List.contains_iff_mem.mpr hd), if_pos ⟨rfl, hd⟩, h.header.of_append]
    · rw [if_neg fun hc => hd (List.contains_iff_mem.mp hc), if_neg fun hc => hd hc.2,
        Reading.nil_append, Reading.behind_nil]
  | fragment =>
    rw [finish, outcome_fragment]
    by_cases hown : rules.hasOwnOutput s = true
    · have hdecide : (decide ¬ rules.BringsOutput s) = false :=
        decide_eq_false (not_not_intro ((rules.hasOwnOutput_iff s).mp hown))
      rw [if_pos hown, h.of_renamed, hdecide, Reading.respell, respell_eq_singlePass]
    · have hdecide : (decide ¬ rules.BringsOutput s) = true :=
        decide_eq_true (mt (rules.hasOwnOutput_iff s).mpr hown)
      rw [if_neg hown, of_insertBeforeEntryPoints h.declaration h.letter, h.of_renamed, hdecide]
      exact declare_respell ((rules.lists_spelling? .fragment).avoids h.entry) _ _ _

/-- A built-in table treats a shader in a single pass over the pieces of the pruned shader: the tokens
    of the result are those of the pass, and the result is read as the pieces of the pass, so that all
    white space and all comments of the pruned shader stand between the same tokens as before. -/
theorem finish_eq_outcome {rules : Rules} (h : rules = glsl300es ∨ rules = glsl450)
    (defines : DefineSet) (stage : Stage) (s : Text) :
    (tokens (rules.finish defines stage s)).map Token.lexeme
        = (rules.outcome defines stage s).lexemes ∧
      Reading.of (rules.finish defines stage s) = rules.outcome defines stage s ∧
      rules.finish defines stage s = (rules.outcome defines stage s).text := by
  have hlawful : rules.Lawful := by
    rcases h with rfl | rfl
    · exact lawful_glsl300es
    · exact lawful_glsl450
  have hof := hlawful.of_finish defines stage s
  refine ⟨?_, hof, ?_⟩
  · rw [← hof, Reading.lexemes_of]
  · rw [← hof, Reading.text_of]

/-- A shader without an output of its own, with a call that goes on behind a comment. -/
theorem finish_eq_outcome_fragment :
    (glsl300es = glsl300es ∨ glsl300es = glsl450) ∧
      glsl300es.finish .empty .fragment
          "/**/void main(){gl_FragColor=texture2D/*(*/(t,x);}".toList =
        ("/**/layout(location = 0) out vec4 glFragColor;\n" ++
          "void main(){glFragColor=texture/*(*/(t,x);}").toList := by
  have h : glsl300es = glsl300es ∨ glsl300es = glsl450 := Or.inl rfl
  exact ⟨h, (finish_eq_outcome h .empty .fragment _).2.2.trans (by decide)⟩

end Rules

end Shading
