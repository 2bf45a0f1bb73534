import Shading.Text.Line

/-!
    Sets of defined symbols.

    A define set lists the preprocessor symbols of one variant of a shader, each once, in the order in
    which they came. An entry is a bare name or a whole directive `#define NAME …`; both stand for the
    name alone, without the parameters of a macro. An entry without a name adds nothing.

    That the names are distinct and can all be symbols is part of the type, so it holds of a set however
    it came about. -/

namespace Shading

/-- The text can be a symbol: it is not empty and holds neither blanks nor an opening parenthesis. -/
structure IsName (name : Text) : Prop where
  ne_nil : name ≠ []
  plain : ∀ c ∈ name, isBlank c = false ∧ c ≠ '('

theorem isName_iff {name : Text} :
    IsName name ↔ name ≠ [] ∧ name.all (fun c => !isBlank c && c != '(') = true := by
  constructor
  · rintro ⟨hne, hplain⟩
    exact ⟨hne, List.all_eq_true.mpr fun c hc => by simpa using hplain c hc⟩
  · rintro ⟨hne, hall⟩
    exact ⟨hne, fun c hc => by simpa using List.all_eq_true.mp hall c hc⟩

instance (name : Text) : Decidable (IsName name) := decidable_of_iff _ isName_iff.symm

/-- An ordered set of symbol names. -/
@[ext]
structure DefineSet where
  names : List Text
  distinct : names.Nodup := by decide
  named : ∀ name ∈ names, IsName name := by decide
  deriving DecidableEq, Repr

namespace DefineSet

/-- What an entry holds behind its `#define`, or all of it when it is no directive. -/
def bodyOf? (entry : Text) : Option Text :=
  match entry.trim with
  | '#' :: rest => "define".toList.isPrefixOf? (Text.trimStart rest)
  | body => some body

/-- The name that an entry stands for. -/
def symbolOf? (entry : Text) : Option Text :=
  match bodyOf? entry with
  | none => none
  | some body =>
    match body.firstWord.takeWhile (· ≠ '(') with
    | [] => none
    | name => some name

/-- What an entry stands for is a name. -/
theorem isName_of_symbolOf? {entry name : Text} (h : symbolOf? entry = some name) : IsName name := by
  unfold symbolOf? at h
  split at h
  · contradiction
  next body hbody =>
    split at h
    · contradiction
    next hne =>
      cases h
      refine ⟨hne, fun c hc => ?_⟩
      have hword : c ∈ body.firstWord := (List.takeWhile_sublist _).subset hc
      have hblank := List.all_eq_true.mp List.all_takeWhile c hword
      have hparen := List.all_eq_true.mp List.all_takeWhile c hc
      exact ⟨by simpa using hblank, by simpa using hparen⟩

/-- The set without names. -/
def empty : DefineSet where
  names := []

/-- The name is in the set. -/
def contains (set : DefineSet) (name : Text) : Bool := set.names.contains name

theorem contains_iff_mem {set : DefineSet} {name : Text} :
    set.contains name = true ↔ name ∈ set.names :=
  List.contains_iff_mem

/-- The set with one more name, at the end. -/
def push (set : DefineSet) (name : Text) (hnew : name ∉ set.names) (hname : IsName name) :
    DefineSet where
  names := set.names ++ [name]
  distinct := List.nodup_append.mpr ⟨set.distinct, by simp, fun a ha b hb heq => by
    rw [List.mem_singleton] at hb
    exact hnew (hb ▸ heq ▸ ha)⟩
  named := List.forall_mem_append.mpr ⟨set.named, List.forall_mem_singleton.mpr hname⟩

@[simp] theorem names_push (set : DefineSet) {name : Text} (hnew : name ∉ set.names)
    (hname : IsName name) : (set.push name hnew hname).names = set.names ++ [name] := rfl

/-- Add the name that an entry stands for, at the end, if it is not there yet. -/
def insert (set : DefineSet) (entry : Text) : DefineSet :=
  match hname : symbolOf? entry with
  | some name =>
    if hold : set.contains name then set
    else set.push name (mt contains_iff_mem.mpr hold) (isName_of_symbolOf? hname)
  | none => set

theorem insert_of_eq_none {set : DefineSet} {entry : Text} (h : symbolOf? entry = none) :
    set.insert entry = set := by
  unfold insert
  split
  next hname => cases hname.symm.trans h
  next => rfl

theorem insert_of_mem {set : DefineSet} {entry name : Text} (h : symbolOf? entry = some name)
    (hmem : name ∈ set.names) : set.insert entry = set := by
  unfold insert
  split
  next hname =>
    cases hname.symm.trans h
    exact dif_pos (contains_iff_mem.mpr hmem)
  next => rfl

theorem insert_of_not_mem {set : DefineSet} {entry name : Text} (h : symbolOf? entry = some name)
    (hmem : name ∉ set.names) : (set.insert entry).names = set.names ++ [name] := by
  unfold insert
  split
  next hname =>
    cases hname.symm.trans h
    rw [dif_neg (mt contains_iff_mem.mp hmem), names_push]
  next hname => cases hname.symm.trans h

/-- Inserting the entry adds a name. -/
def accepts (set : DefineSet) (entry : Text) : Bool :=
  match symbolOf? entry with
  | some name => !set.contains name
  | none => false

/-- Add entries one after another. -/
def insertAll (set : DefineSet) (entries : List Text) : DefineSet := entries.foldl insert set

/-- The set of the names that entries stand for. -/
def ofEntries (entries : List Text) : DefineSet := empty.insertAll entries

/-- The line begins with `#`, blanks apart. -/
def isDirective (line : Text) : Bool := line.trimStart.head? == some '#'

/-- The names that the `#define` lines of a text define. -/
def ofDirectives (s : Text) : DefineSet := ofEntries (s.lines.filter isDirective)

/-- The set as lines `#define NAME`. -/
def preamble (set : DefineSet) : Text :=
  set.names.flatMap fun name => "#define ".toList ++ name ++ ['\n']

end DefineSet

end Shading
