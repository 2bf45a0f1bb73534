import Shading.Proofs.DefineEntries

/-!
    Define sets over a run.

    A define set comes about step by step: an entry is added to the set at hand, or a new set is made of
    a list of entries or of the directives of a text (`Step`). Each entry that is offered is either
    accepted, for a name that the set does not have yet and that is then its last, or changes nothing
    (`insert_cases`). So after any run the set lists the names of the entries that were offered since it
    was last made anew (`run_eq_ofEntries`), each once, where it first occurred (`names_insertAll`). Every
    set comes about so: directives for its names are entries for it (`ofEntries_directiveLines`). -/

namespace Shading

namespace DefineSet

/-- A step in the making of a set. -/
inductive Step where
  /-- Add an entry to the set at hand. -/
  | insert (entry : Text)
  /-- Make a new set of entries. -/
  | collect (entries : List Text)
  /-- Make a new set of the directives of a text. -/
  | scan (s : Text)

/-- The set behind a step. -/
def Step.apply (set : DefineSet) : Step → DefineSet
  | .insert entry => set.insert entry
  | .collect entries => ofEntries entries
  | .scan s => ofDirectives s

/-- The entries that have been offered to the set behind a step, given those before it. -/
def Step.offer (entries : List Text) : Step → List Text
  | .insert entry => entries ++ [entry]
  | .collect entries => entries
  | .scan s => s.lines.filter isDirective

/-- The set behind a run that begins with the empty set. -/
def run (steps : List Step) : DefineSet := steps.foldl Step.apply empty

/-- The entries that the set behind a run has been offered since it was last made anew. -/
def offered (steps : List Step) : List Text := steps.foldl Step.offer []

/-- The entries that a set accepts, if they are offered one after another. -/
def accepted (set : DefineSet) : List Text → List Text
  | [] => []
  | entry :: entries =>
    (if set.accepts entry then [entry] else []) ++ (set.insert entry).accepted entries

/-- The directive for a name, on a line of its own. -/
def directiveLine (name : Text) : Text := "#define ".toList ++ name ++ ['\n']

/-! ### One entry -/

/-- An entry is accepted for a name that the set does not have, which becomes its last; any other entry
    changes nothing. -/
theorem insert_cases (set : DefineSet) (entry : Text) :
    (∃ name, symbolOf? entry = some name ∧ name ∉ set.names ∧ set.accepts entry = true ∧
      (set.insert entry).names = set.names ++ [name]) ∨
    ((∀ name, symbolOf? entry = some name → name ∈ set.names) ∧ set.accepts entry = false ∧
      set.insert entry = set) := by
  cases hname : symbolOf? entry with
  | none => simp [accepts, hname, insert_of_eq_none]
  | some name =>
    rw [accepts, hname]
    by_cases hmem : name ∈ set.names
    · right
      exact ⟨fun _ heq => Option.some.inj heq ▸ hmem, by simpa [contains] using hmem,
        insert_of_mem hname hmem⟩
    · left
      exact ⟨name, rfl, hmem, by simpa [contains] using hmem, insert_of_not_mem hname hmem⟩

/-- A set that lists names in the order of their first occurrence still does with one more entry. -/
theorem names_insert {set : DefineSet} {names : List Text} (h : set.names = names.eraseDups) (entry : Text) :
    (set.insert entry).names = (names ++ (symbolOf? entry).toList).eraseDups := by
  have hmem : ∀ name, name ∈ set.names ↔ name ∈ names := by simp [h]
  rw [List.eraseDups_append, ← h]
  rcases insert_cases set entry with ⟨name, hname, hnew, -, hinsert⟩ | ⟨hold, -, hinsert⟩
  · rw [hmem] at hnew
    simp [hinsert, hname, List.removeAll, hnew, List.eraseDups_cons]
  · rw [hinsert]
    cases hname : symbolOf? entry with
    | none => simp [List.removeAll]
    | some name =>
      have hseen := (hmem name).mp (hold name hname)
      simp [List.removeAll, hseen]

/-! ### Entries one after another -/

theorem insertAll_cons (set : DefineSet) (entry : Text) (entries : List Text) :
    set.insertAll (entry :: entries) = (set.insert entry).insertAll entries := rfl

theorem names_insertAll : ∀ (entries : List Text) (set : DefineSet) (names : List Text),
    set.names = names.eraseDups →
      (set.insertAll entries).names = (names ++ entries.filterMap symbolOf?).eraseDups
  | [], set, names, h => by simpa [insertAll] using h
  | entry :: entries, set, names, h => by
    have ih := names_insertAll entries _ _ (names_insert h entry)
    rw [insertAll_cons, ih, List.append_assoc, List.filterMap_cons]
    cases symbolOf? entry <;> rfl

/-- The names that are added are those of the accepted entries. -/
theorem map_symbolOf?_accepted : ∀ (entries : List Text) (set : DefineSet),
    (set.insertAll entries).names.map some =
      set.names.map some ++ (set.accepted entries).map symbolOf?
  | [], set => by simp [insertAll, accepted]
  | entry :: entries, set => by
    have ih := map_symbolOf?_accepted entries (set.insert entry)
    rw [insertAll_cons, ih, accepted]
    rcases insert_cases set entry with ⟨name, hname, -, haccepts, hinsert⟩ | ⟨-, haccepts, hinsert⟩
    · simp [hinsert, haccepts, hname]
    · simp [hinsert, haccepts]

/-! ### Entries for a set -/

/-- Distinct names are all the first of their kind. -/
theorem eraseDups_of_nodup : ∀ {names : List Text}, names.Nodup → names.eraseDups = names
  | [], _ => rfl
  | name :: names, h => by
    obtain ⟨hnew, hnames⟩ := List.nodup_cons.mp h
    have hkeep : names.filter (fun other => !other == name) = names := by
      rw [List.filter_eq_self]
      intro other hother
      have hne : other ≠ name := fun heq => hnew (heq ▸ hother)
      simp [hne]
    rw [List.eraseDups_cons, hkeep, eraseDups_of_nodup hnames]

/-- Entries for names are read as these. -/
theorem filterMap_symbolOf?_map {names : List Text} (entryFor : Text → Text)
    (h : ∀ name ∈ names, symbolOf? (entryFor name) = some name) :
    (names.map entryFor).filterMap symbolOf? = names := by
  rw [List.filterMap_map]
  exact Eq.trans (List.filterMap_eq_map_iff_forall_eq_some.mpr h) (List.map_id names)

/-- Entries for the names of a set, one after another, make the set. -/
theorem ofEntries_map {set : DefineSet} (entryFor : Text → Text)
    (h : ∀ name ∈ set.names, symbolOf? (entryFor name) = some name) :
    ofEntries (set.names.map entryFor) = set := by
  have hnames := names_insertAll (set.names.map entryFor) DefineSet.empty [] rfl
  rw [List.nil_append, filterMap_symbolOf?_map entryFor h, eraseDups_of_nodup set.distinct] at hnames
  exact DefineSet.ext hnames

theorem directiveLine_eq (name : Text) :
    directiveLine name = [] ++ '#' :: ([] ++ ("define".toList ++ ([' '] ++ (name ++ ['\n'])))) := by
  have hdefine : "#define ".toList = '#' :: ("define".toList ++ [' ']) := by decide
  unfold directiveLine
  rw [hdefine]
  simp only [List.cons_append, List.append_assoc, List.nil_append]

/-- The directive for a name is an entry for it. -/
theorem symbolOf?_directiveLine {name : Text} (h : IsName name) :
    symbolOf? (directiveLine name) = some name := by
  rw [symbolOf?_eq_some_iff, directiveLine_eq]
  refine ⟨h, StandsFor.directive [] [] [' '] ['\n'] rfl rfl (by decide) ?_⟩
  rintro c ⟨⟩
  exact Or.inl (by decide)

/-- Every set is that of some entries. -/
theorem ofEntries_directiveLines (set : DefineSet) :
    ofEntries (set.names.map directiveLine) = set :=
  ofEntries_map directiveLine fun name hname => symbolOf?_directiveLine (set.named name hname)

/-! ### Runs -/

/-- A step makes the set of the entries that have been offered. -/
theorem Step.apply_ofEntries (step : Step) (entries : List Text) :
    step.apply (ofEntries entries) = ofEntries (step.offer entries) := by
  cases step with
  | insert entry =>
    rw [apply, offer, ofEntries, ofEntries, insertAll, insertAll, List.foldl_append]
    rfl
  | collect entries => rfl
  | scan s => rfl

/-- A run makes the set of the entries that have been offered since the set was last made anew. -/
theorem run_eq_ofEntries (steps : List Step) : run steps = ofEntries (offered steps) := by
  have hfold : ∀ entries, steps.foldl Step.apply (ofEntries entries) =
      ofEntries (steps.foldl Step.offer entries) := by
    induction steps with
    | nil => exact fun _ => rfl
    | cons step steps ih =>
      intro entries
      rw [List.foldl_cons, List.foldl_cons, step.apply_ofEntries, ih]
  exact hfold []

/-- Over any run a define set lists the names that the offered entries stand for, each once and in the
    order of their first occurrence, that is, the names of the accepted entries. An entry is accepted
    exactly for a name that the set does not have yet, which becomes its last name, and changes nothing
    otherwise. The names are distinct and not empty, and hold neither blanks nor an opening
    parenthesis. -/
theorem run_names (steps : List Step) :
    (∀ entry name, symbolOf? entry = some name ↔ IsName name ∧ StandsFor name entry) ∧
    (run steps).names = ((offered steps).filterMap symbolOf?).eraseDups ∧
    (run steps).names.map some = (empty.accepted (offered steps)).map symbolOf? ∧
    (∀ (set : DefineSet) entry,
      (∃ name, symbolOf? entry = some name ∧ name ∉ set.names ∧ set.accepts entry = true ∧
        (set.insert entry).names = set.names ++ [name]) ∨
      ((∀ name, symbolOf? entry = some name → name ∈ set.names) ∧ set.accepts entry = false ∧
        set.insert entry = set)) ∧
    (run steps).names.Nodup ∧
    ∀ name ∈ (run steps).names, name ≠ [] ∧ ∀ c ∈ name, isBlank c = false ∧ c ≠ '(' := by
  rw [run_eq_ofEntries]
  exact ⟨fun _ _ => symbolOf?_eq_some_iff, names_insertAll (offered steps) empty [] rfl,
    map_symbolOf?_accepted (offered steps) empty, insert_cases, (ofEntries (offered steps)).distinct,
    fun name hname =>
      have hname := (ofEntries (offered steps)).named name hname
      ⟨hname.ne_nil, hname.plain⟩⟩

/-- Names out of a text, one of them a macro and one of them twice, and then a padded entry. -/
theorem run_names_directives :
    (run [.insert "LOST".toList, .scan "#define A(x) x\r\nint i;\n # define B\n#define A".toList,
        .insert "\u2003C 1".toList, .insert "B".toList]).names =
      ["A".toList, "B".toList, "C".toList] ∧
    "B".toList ∈ ["A".toList, "B".toList, "C".toList] ∧ "B".toList ≠ [] := by
  have hnames := run_names [.insert "LOST".toList,
    .scan "#define A(x) x\r\nint i;\n # define B\n#define A".toList, .insert "\u2003C 1".toList,
    .insert "B".toList]
  have hrun : (run [.insert "LOST".toList,
      .scan "#define A(x) x\r\nint i;\n # define B\n#define A".toList, .insert "\u2003C 1".toList,
      .insert "B".toList]).names = ["A".toList, "B".toList, "C".toList] :=
    hnames.2.1.trans (by decide)
  have hmem : "B".toList ∈ ["A".toList, "B".toList, "C".toList] := by simp
  exact ⟨hrun, hmem, (hnames.2.2.2.2.2 _ (hrun ▸ hmem)).1⟩

end DefineSet

end Shading
