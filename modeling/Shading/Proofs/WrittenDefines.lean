import Mathlib.Data.List.Basic
import Shading.Proofs.DefineRuns
import Shading.Proofs.Lines
import Shading.Proofs.WrittenManifest

/-!
    The written forms of a define set.

    A define set is written in two ways: as a preamble, with a directive for each name, and as the list of
    its names. The type asks no more of a set than it has to: each set comes about (`reachable`). Every
    line of the preamble is a directive for its name, and the set is read back from it, name by name and
    in order (`ofDirectives_preamble`).

    A list of names is read back as entries, and an entry that begins with `#` is a directive. A name can
    begin so, since a directive takes as a name whatever stands behind `define`. Such a name is not its
    own entry: read again it is lost, or turns into a shorter name. A set comes back from its names just
    when it has none of that kind (`ofEntries_names_iff`). -/

namespace Shading

/-- A name stands on one line. -/
theorem IsName.newline_not_mem {name : Text} (h : IsName name) : '\n' ∉ name := by
  intro hmem
  have hblank : isBlank '\n' = true := by decide
  rw [(h.plain _ hmem).1] at hblank
  exact Bool.noConfusion hblank

namespace DefineSet

/-- The set comes about from the empty set by steps, or is read from JSON. -/
inductive Reachable : DefineSet → Prop
  | empty : Reachable .empty
  | step {set : DefineSet} (step : Step) (h : Reachable set) : Reachable (step.apply set)
  | read {set : DefineSet} {s rest : Text} (h : DefineSet.read s = .ok (set, rest)) : Reachable set

/-- No name of the set looks like a directive. -/
def Hashless (set : DefineSet) : Prop := ∀ name ∈ set.names, name.head? ≠ some '#'

/-! ### Sets that come about -/

/-- Every set comes about, from entries for its names. -/
theorem reachable (set : DefineSet) : set.Reachable := by
  have h : Reachable ((Step.collect (set.names.map directiveLine)).apply .empty) := .step _ .empty
  rwa [Step.apply, ofEntries_directiveLines] at h

/-! ### The preamble -/

theorem preamble_eq_flatMap (set : DefineSet) : set.preamble = set.names.flatMap directiveLine := by
  unfold preamble directiveLine
  rfl

theorem isDirective_directiveLine (name : Text) : isDirective (directiveLine name) = true := by
  rw [isDirective, directiveLine_eq, List.nil_append, Text.trimStart_cons (by decide)]
  rfl

/-- The lines of a preamble are the directives for its names. -/
theorem lines_directives : ∀ {names : List Text}, (∀ name ∈ names, IsName name) →
    Text.lines (names.flatMap directiveLine) = names.map directiveLine
  | [], _ => rfl
  | name :: names, h => by
    obtain ⟨hname, hnames⟩ := List.forall_mem_cons.mp h
    have hline : '\n' ∉ "#define ".toList ++ name := by
      rw [List.mem_append, not_or]
      exact ⟨by decide, hname.newline_not_mem⟩
    have hlines := Text.lines_line_append (names.flatMap directiveLine) hline
    rw [lines_directives hnames] at hlines
    rw [List.flatMap_cons, List.map_cons]
    unfold directiveLine at hlines ⊢
    exact hlines

/-- A set is read back from its preamble. -/
theorem ofDirectives_preamble (set : DefineSet) : ofDirectives set.preamble = set := by
  have hlines : set.preamble.lines.filter isDirective = set.names.map directiveLine := by
    rw [preamble_eq_flatMap, lines_directives set.named, List.filter_eq_self]
    exact List.forall_mem_map.mpr fun name _ => isDirective_directiveLine name
  rw [ofDirectives, hlines, ofEntries_directiveLines]

/-- A set of which one name begins with `#`, and the other has quotes and a control character. -/
def oddNames : DefineSet where
  names := ["#B".toList, "\"A\u0001\"".toList]

theorem ofDirectives_preamble_odd :
    oddNames.Reachable ∧ ofDirectives "#define #B\n#define \"A\u0001\"\n".toList = oddNames := by
  have hpreamble : oddNames.preamble = "#define #B\n#define \"A\u0001\"\n".toList := by decide
  have hback := ofDirectives_preamble oddNames
  rw [hpreamble] at hback
  exact ⟨reachable oddNames, hback⟩

/-! ### The list of names -/

/-- A name is its own entry just when it does not begin with `#`. -/
theorem symbolOf?_name_iff {name : Text} (h : IsName name) :
    symbolOf? name = some name ↔ name.head? ≠ some '#' := by
  rw [symbolOf?_eq_some_iff, and_iff_right h]
  constructor
  · have hbare : ∀ {entry : Text}, StandsFor name entry → name = entry → name.head? ≠ some '#' := by
      intro entry hstands hentry
      cases hstands with
      | bare lead rest hlead hhash hrest => exact hhash
      | directive lead gap gap' rest hlead hgap hgap' hrest =>
        -- a directive is longer than its name
        have hlength := congrArg List.length hentry
        simp only [List.length_append, List.length_cons] at hlength
        omega
    exact fun hstands => hbare hstands rfl
  · intro hhash
    have hbare : StandsFor name ([] ++ (name ++ [])) :=
      StandsFor.bare [] [] rfl hhash fun c hc => absurd hc (by simp)
    rwa [List.nil_append, List.append_nil] at hbare

theorem accepted_sublist : ∀ (entries : List Text) (set : DefineSet),
    (set.accepted entries).Sublist entries
  | [], _ => List.Sublist.slnil
  | entry :: entries, set => by
    have ih := accepted_sublist entries (set.insert entry)
    rw [accepted]
    split
    · exact ih.cons_cons entry
    · exact ih.cons entry

/-- A set comes back from its names just when all of them are entries for themselves. -/
theorem ofEntries_names_eq_iff (set : DefineSet) :
    ofEntries set.names = set ↔ ∀ name ∈ set.names, symbolOf? name = some name := by
  constructor
  · intro heq
    have hmap := map_symbolOf?_accepted set.names DefineSet.empty
    rw [← ofEntries, heq] at hmap
    -- every name is accepted, so each is the one that stands in its place
    have hall : DefineSet.empty.accepted set.names = set.names := by
      refine (accepted_sublist _ _).eq_of_length ?_
      have hlength := congrArg List.length hmap
      simpa [DefineSet.empty] using hlength.symm
    rw [hall] at hmap
    exact fun name hname => (List.map_inj_left.mp hmap name hname).symm
  · intro hnames
    simpa using ofEntries_map id hnames

/-- A set comes back from its names just when none of them looks like a directive. So it is with the
    set that is written as JSON and read again, and with its names when they are put into a set of other
    entries: they are added as they are. -/
theorem ofEntries_names_iff (set : DefineSet) :
    (ofEntries set.names = set ↔ set.Hashless) ∧
      (Json.ReadsBack DefineSet.read set.toJson.compact set ↔ set.Hashless) ∧
      ((∀ entries, ((ofEntries entries).insertAll set.names).names =
        ((ofEntries entries).names ++ set.names).eraseDups) ↔ set.Hashless) := by
  have hself : ofEntries set.names = set ↔ set.Hashless := by
    rw [ofEntries_names_eq_iff]
    exact forall₂_congr fun name hname => symbolOf?_name_iff (set.named name hname)
  refine ⟨hself, ?_, ?_⟩
  · rw [← hself]
    constructor
    · intro hreads
      have hread := (read_defines set []).symm.trans (hreads [])
      exact congrArg Prod.fst (Except.ok.inj hread)
    · intro heq rest
      rw [read_defines, heq]
  · rw [← hself]
    constructor
    · intro hmerge
      have hnames : (ofEntries set.names).names = set.names.eraseDups := hmerge []
      rw [eraseDups_of_nodup set.distinct] at hnames
      exact DefineSet.ext hnames
    · intro heq entries
      have hall := (ofEntries_names_eq_iff set).mp heq
      have hsymbols : set.names.filterMap symbolOf? = set.names := by
        simpa using filterMap_symbolOf?_map id hall
      have hfirst := eraseDups_of_nodup (ofEntries entries).distinct
      rw [names_insertAll set.names _ _ hfirst.symm, hsymbols]

/-- Names out of the directives of a text, one of them that of a macro. -/
theorem ofEntries_names_iff_parameters :
    Reachable { names := ["A".toList, "B".toList] } ∧
      ofEntries ["A".toList, "B".toList] = { names := ["A".toList, "B".toList] } :=
  ⟨reachable _, (ofEntries_names_iff { names := ["A".toList, "B".toList] }).1.mpr
    (by unfold Hashless; decide)⟩

/-- Two names that begin with `#`: one is lost, and of the other a new name comes. -/
theorem ofEntries_names_hash :
    Reachable (ofDirectives "#define #X\n#define #defineMULTIVIEW\n".toList) ∧
      (ofDirectives "#define #X\n#define #defineMULTIVIEW\n".toList).names =
        ["#X".toList, "#defineMULTIVIEW".toList] ∧
      ofEntries ["#X".toList, "#defineMULTIVIEW".toList] = { names := ["MULTIVIEW".toList] } ∧
      ofEntries (ofDirectives "#define #X\n#define #defineMULTIVIEW\n".toList).names ≠
        ofDirectives "#define #X\n#define #defineMULTIVIEW\n".toList :=
  ⟨Reachable.step (.scan _) .empty, by decide, by decide, by decide⟩

end DefineSet

end Shading
