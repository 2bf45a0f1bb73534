import Mathlib.Data.List.Basic
import Shading.Proofs.DeclarationEdits
import Shading.Proofs.Insertion
import Shading.Proofs.Pruning
import Shading.Proofs.Tiling

/-!
    Edits under checked positions.

    A position counts bytes, so it can lie behind the end of a text or inside a character, and two
    positions can be out of order; a text cannot be cut there. `Text.slice?` cuts only where that is
    possible, and what is said here is that nothing has to be checked: the edits of every pass are sorted,
    apart from each other and between characters (`Edited`), making them by slices never fails, and
    neither does reading a text by slices (`ReadsBySlices`). What an edit does not replace is found again
    in the result, once and in order: its characters can be traced to those outside the edits. -/

namespace Shading

/-! ### Cuts and slices -/

/-- The position lies between two characters of the text or at one of its ends. -/
def Text.IsCut (s : Text) (position : Nat) : Prop :=
  ∃ front back, s = front ++ back ∧ front.byteSize = position

theorem isCut_iff {s : Text} {position : Nat} :
    s.IsCut position ↔ (s.takeBytes position).byteSize = position := by
  constructor
  · rintro ⟨front, back, rfl, rfl⟩
    rw [Text.takeBytes_byteSize_append]
  · intro h
    exact ⟨_, _, (Text.takeBytes_append_dropBytes position s).symm, h⟩

instance (s : Text) (position : Nat) : Decidable (s.IsCut position) :=
  decidable_of_iff _ isCut_iff.symm

theorem Text.IsCut.le_byteSize {s : Text} {position : Nat} (h : s.IsCut position) :
    position ≤ s.byteSize := by
  obtain ⟨front, back, rfl, rfl⟩ := h
  simp

/-- What stands between two positions, if they are in order and the text can be cut there. -/
def Text.slice? (s : Text) (start stop : Nat) : Option Text :=
  if start ≤ stop ∧ s.IsCut start ∧ s.IsCut stop then some (s.between start stop) else none

/-- Of two cuts the first lies in front of the second. -/
theorem exists_middle {s : Text} {start stop : Nat} (hle : start ≤ stop) (hstart : s.IsCut start)
    (hstop : s.IsCut stop) : ∃ a b c : Text, s = a ++ (b ++ c) ∧ a.byteSize = start ∧
      start + b.byteSize = stop := by
  obtain ⟨a, back, rfl, rfl⟩ := hstart
  obtain ⟨front, c, hcut, rfl⟩ := hstop
  rcases List.append_eq_append_iff.mp hcut with ⟨b, rfl, rfl⟩ | ⟨b, rfl, rfl⟩
  · exact ⟨a, b, c, rfl, rfl, by rw [Text.byteSize_append]⟩
  · -- the cuts are the same
    rw [Text.byteSize_append] at hle
    exact ⟨front ++ b, [], back, rfl, rfl, by simp; omega⟩

/-- A slice is what stands between two cuts, and there is none anywhere else. -/
theorem slice?_eq_some_iff {s t : Text} {start stop : Nat} : s.slice? start stop = some t ↔
    ∃ a c : Text, s = a ++ (t ++ c) ∧ a.byteSize = start ∧ start + t.byteSize = stop := by
  unfold Text.slice?
  constructor
  · intro h
    split at h
    · next hcut =>
      obtain ⟨a, b, c, rfl, rfl, rfl⟩ := exists_middle hcut.1 hcut.2.1 hcut.2.2
      rw [between_append] at h
      cases h
      exact ⟨a, c, rfl, rfl, rfl⟩
    · cases h
  · rintro ⟨a, c, rfl, rfl, rfl⟩
    have hstart : Text.IsCut (a ++ (t ++ c)) a.byteSize := ⟨a, t ++ c, rfl, rfl⟩
    have hstop : Text.IsCut (a ++ (t ++ c)) (a.byteSize + t.byteSize) := ⟨a ++ t, c, by simp, by simp⟩
    rw [if_pos ⟨Nat.le_add_right _ _, hstart, hstop⟩, between_append]

/-- Inside a character, out of order and behind the end there is nothing to cut. -/
example : Text.slice? "é+".toList 1 2 = none ∧ Text.slice? "é+".toList 2 1 = none ∧
    Text.slice? "é+".toList 2 4 = none ∧ Text.slice? "é+".toList 2 3 = some ['+'] := by decide

theorem slice?_append (a b c : Text) :
    Text.slice? (a ++ (b ++ c)) a.byteSize (a.byteSize + b.byteSize) = some b :=
  slice?_eq_some_iff.mpr ⟨a, c, rfl, rfl, rfl⟩

theorem slice?_front (a b : Text) : Text.slice? (a ++ b) 0 a.byteSize = some a := by
  simpa using slice?_append [] a b

theorem slice?_back (a b : Text) :
    Text.slice? (a ++ b) a.byteSize (Text.byteSize (a ++ b)) = some b := by
  simpa using slice?_append a b []

/-! ### Edits made by slices -/

/-- Make edits, cutting out of the text what stands between them. -/
def spliceBySlices (s : Text) : Nat → List Edit → Option Text
  | done, [] => s.slice? done s.byteSize
  | done, e :: edits => do
    let kept ← s.slice? done e.start
    let rest ← spliceBySlices s e.stop edits
    return kept ++ (e.text ++ rest)

/-- The characters of a text that stands behind `n` bytes, each with its position. -/
def positions : Nat → Text → List (Nat × Char)
  | _, [] => []
  | n, c :: s => (n, c) :: positions (n + c.utf8Size) s

/-- The edit leaves what stands at the position. -/
def Edit.spares (e : Edit) (position : Nat) : Bool := position < e.start || e.stop ≤ position

/-- The characters of `s'` can be traced to those of `s`, which stands behind `n` bytes: some of them
    come from the characters outside the edits, each of these once and all in order, and the others are
    those that the edits write. -/
def Traces (n : Nat) (edits : List Edit) (s s' : Text) : Prop :=
  ∃ origins : List (Option Nat × Char), origins.map (·.2) = s' ∧
    (origins.filterMap fun x => x.1.map (·, x.2)) =
      (positions n s).filter (fun x => edits.all (·.spares x.1)) ∧
    (origins.filter (·.1.isNone)).map (·.2) = edits.flatMap (·.text)

/-- The edits fit the text `s` and turn it into `s'`. -/
structure Edited (edits : List Edit) (s s' : Text) : Prop where
  /-- An edit begins behind the end of those in front of it. -/
  apart : edits.Pairwise fun e f => e.stop ≤ f.start
  start_le_stop : ∀ e ∈ edits, e.start ≤ e.stop
  stop_le_byteSize : ∀ e ∈ edits, e.stop ≤ s.byteSize
  isCut : ∀ e ∈ edits, s.IsCut e.start ∧ s.IsCut e.stop
  bySlices : spliceBySlices s 0 edits = some s'
  traces : Traces 0 edits s s'

theorem positions_append (b : Text) : ∀ (n : Nat) (a : Text),
    positions n (a ++ b) = positions n a ++ positions (n + a.byteSize) b
  | _, [] => rfl
  | n, c :: a => by
    rw [List.cons_append, positions, positions, positions_append b, List.cons_append,
      Text.byteSize_cons, Nat.add_assoc]

theorem map_snd_positions : ∀ (n : Nat) (s : Text), (positions n s).map (·.2) = s
  | _, [] => rfl
  | n, c :: s => by rw [positions, List.map_cons, map_snd_positions]

theorem bounds_of_mem_positions {x : Nat × Char} : ∀ {n : Nat} {s : Text}, x ∈ positions n s →
    n ≤ x.1 ∧ x.1 < n + s.byteSize
  | _, [], h => absurd h List.not_mem_nil
  | n, c :: s, h => by
    have hc := c.utf8Size_pos
    rw [Text.byteSize_cons]
    rcases List.mem_cons.mp h with rfl | h
    · exact ⟨Nat.le_refl n, by show n < _; omega⟩
    · obtain ⟨hle, hlt⟩ := bounds_of_mem_positions h
      exact ⟨by omega, by omega⟩

/-- In front of all edits every character is outside them. -/
theorem filter_positions_before {n : Nat} {edits : List Edit} {s : Text}
    (h : ∀ e ∈ edits, n + s.byteSize ≤ e.start) :
    (positions n s).filter (fun x => edits.all (·.spares x.1)) = positions n s := by
  rw [List.filter_eq_self]
  intro x hx
  rw [List.all_eq_true]
  intro e he
  have hlt := (bounds_of_mem_positions hx).2
  have hle := h e he
  simp [Edit.spares, show x.1 < e.start by omega]

/-- Outside an edit, and others behind it, are the characters in front of it and those behind it that
    the others leave. -/
theorem filter_positions_cons {n : Nat} {e : Edit} {edits : List Edit} {kept old s : Text}
    (hstart : e.start = n + kept.byteSize) (hstop : e.stop = n + kept.byteSize + old.byteSize)
    (hlater : ∀ f ∈ edits, e.stop ≤ f.start) :
    (positions n (kept ++ (old ++ s))).filter (fun x => (e :: edits).all (·.spares x.1)) =
      positions n kept ++
        (positions e.stop s).filter (fun x => edits.all (·.spares x.1)) := by
  have hkept : (positions n kept).filter (fun x => (e :: edits).all (·.spares x.1)) =
      positions n kept := by
    refine filter_positions_before fun f hf => ?_
    rcases List.mem_cons.mp hf with rfl | hf
    · exact Nat.le_of_eq hstart.symm
    · have hle := hlater f hf
      omega
  have hold : (positions (n + kept.byteSize) old).filter
      (fun x => (e :: edits).all (·.spares x.1)) = [] := by
    rw [List.filter_eq_nil_iff]
    intro x hx
    obtain ⟨hle, hlt⟩ := bounds_of_mem_positions hx
    have hinside : e.spares x.1 = false := by simp [Edit.spares]; omega
    simp [hinside]
  have hrest : (positions e.stop s).filter (fun x => (e :: edits).all (·.spares x.1)) =
      (positions e.stop s).filter (fun x => edits.all (·.spares x.1)) := by
    refine List.filter_congr fun x hx => ?_
    have hle := (bounds_of_mem_positions hx).1
    simp [Edit.spares, hle]
  rw [positions_append, positions_append, ← hstop, List.filter_append, List.filter_append, hkept,
    hold, hrest, List.nil_append]

namespace Splices

variable {n : Nat} {edits : List Edit} {s s' : Text}

/-- Edits of a part lie in it, in order. -/
theorem ordered (h : Splices n edits s s') :
    (∀ e ∈ edits, n ≤ e.start ∧ e.start ≤ e.stop) ∧ edits.Pairwise fun e f => e.stop ≤ f.start := by
  induction h with
  | nil n s => exact ⟨fun _ he => absurd he List.not_mem_nil, List.Pairwise.nil⟩
  | @cons n kept old new edits s s' h ih =>
    obtain ⟨hbounds, hpairs⟩ := ih
    rw [List.forall_mem_cons, List.pairwise_cons]
    refine ⟨⟨⟨Nat.le_add_right _ _, Nat.le_add_right _ _⟩, fun e he => ?_⟩,
      fun e he => (hbounds e he).1, hpairs⟩
    obtain ⟨hstart, hstop⟩ := hbounds e he
    exact ⟨by omega, hstop⟩

/-- Edits of a part begin and end where the whole can be cut. -/
theorem isCut (h : Splices n edits s s') : ∀ front : Text, front.byteSize = n →
    ∀ e ∈ edits, Text.IsCut (front ++ s) e.start ∧ Text.IsCut (front ++ s) e.stop := by
  induction h with
  | nil n s => exact fun _ _ _ he => absurd he List.not_mem_nil
  | @cons n kept old new edits s s' h ih =>
    intro front hfront
    have hrest := ih (front ++ (kept ++ old)) (by simp [hfront, Nat.add_assoc])
    rw [List.forall_mem_cons]
    refine ⟨⟨⟨front ++ kept, old ++ s, by simp, by simp [hfront]⟩,
      ⟨front ++ (kept ++ old), s, by simp, by simp [hfront, Nat.add_assoc]⟩⟩, ?_⟩
    simpa using hrest

/-- Making the edits of a part by slices of the whole gives the outcome. -/
theorem spliceBySlices_eq (h : Splices n edits s s') : ∀ front : Text, front.byteSize = n →
    spliceBySlices (front ++ s) n edits = some s' := by
  induction h with
  | nil n s =>
    rintro front rfl
    exact slice?_back front s
  | @cons n kept old new edits s s' h ih =>
    rintro front rfl
    have hkept := slice?_append front kept (old ++ s)
    have hrest := ih (front ++ (kept ++ old)) (by simp [Nat.add_assoc])
    have hcut : (front ++ (kept ++ old)) ++ s = front ++ (kept ++ (old ++ s)) := by simp
    rw [hcut] at hrest
    rw [spliceBySlices, hkept, hrest]
    rfl

/-- The outcome can be traced to the part. -/
theorem traces (h : Splices n edits s s') : Traces n edits s s' := by
  induction h with
  | nil n s =>
    refine ⟨(positions n s).map fun x => (some x.1, x.2), ?_, ?_, ?_⟩
    · simp [Function.comp_def, map_snd_positions]
    · simp [List.filterMap_map]
    · simp [List.filter_map, Function.comp_def]
  | @cons n kept old new edits s s' h ih =>
    obtain ⟨origins, hchars, hkept, hnew⟩ := ih
    refine ⟨(positions n kept).map (fun x => (some x.1, x.2)) ++ (new.map (none, ·) ++ origins),
      ?_, ?_, ?_⟩
    · simp [hchars, Function.comp_def, map_snd_positions]
    · rw [filter_positions_cons rfl rfl (fun f hf => (h.ordered.1 f hf).1), ← hkept]
      simp [List.filterMap_map]
    · simp [hnew, List.filter_map, Function.comp_def]

/-- Edits that cut a text fit it. -/
theorem edited {edits : List Edit} {s s' : Text} (h : Splices 0 edits s s') : Edited edits s s' where
  apart := h.ordered.2
  start_le_stop e he := (h.ordered.1 e he).2
  stop_le_byteSize e he := (h.isCut [] rfl e he).2.le_byteSize
  isCut := h.isCut [] rfl
  bySlices := h.spliceBySlices_eq [] rfl
  traces := h.traces

end Splices

/-! ### Reading by slices -/

/-- Read a text from a position on. What stands in front of a character and what stands behind are cut
    out of the text anew for each, and `bound` bounds how often. -/
def rolesBySlices (s : Text) : Nat → Place → Nat → Option (List (Char × Role))
  | 0, _, _ => none
  | bound + 1, place, position => do
    let _ ← s.slice? 0 position
    match ← s.slice? position s.byteSize with
    | [] => return []
    | c :: rest =>
      let later ← rolesBySlices s bound (step place c rest.head?).2 (position + c.utf8Size)
      return (c, (step place c rest.head?).1) :: later

/-- The stretch of a directive that begins at a position, by slices: what stands in front of it, what of
    that is on its line, and what stands behind. -/
def Pragma.stretchBySlices (s : Text) (start : Nat) : Option (Nat × Nat) := do
  let front ← s.slice? 0 start
  let lineStart := start - front.lastLine.byteSize
  let lead ← s.slice? lineStart start
  let back ← s.slice? start s.byteSize
  return (if lead.all isBlank then lineStart else start, start + back.firstLine.byteSize)

/-- All that is cut out of a text to read it can be cut out. -/
structure ReadsBySlices (inComment : Bool) (s : Text) : Prop where
  /-- What stands in front of each character and behind it. -/
  roles : rolesBySlices s (s.length + 1) (.start inComment) 0 = some (roles (.start inComment) s)
  /-- The characters of a token. -/
  texts : ∀ t ∈ tokensFrom inComment s, s.slice? t.start t.stop = some t.text
  /-- What stands between the beginnings of two tokens. -/
  between : (tokensFrom inComment s).Pairwise fun t u =>
    s.slice? t.start u.start = some (s.between t.start u.start)
  /-- What a directive is cut out with, if one begins at a token. -/
  stretches : ∀ t ∈ tokensFrom inComment s,
    Pragma.stretchBySlices s t.start = some (Pragma.stretch s t.start)

theorem rolesBySlices_eq : ∀ (front s : Text) (place : Place),
    rolesBySlices (front ++ s) (s.length + 1) place front.byteSize = some (roles place s)
  | front, [], place => by
    rw [rolesBySlices, slice?_front, slice?_back]
    rfl
  | front, c :: s, place => by
    have hrest := rolesBySlices_eq (front ++ [c]) s (step place c s.head?).2
    have hsize : Text.byteSize (front ++ [c]) = front.byteSize + c.utf8Size := by simp
    rw [hsize, List.append_assoc, List.singleton_append] at hrest
    rw [rolesBySlices, slice?_front, slice?_back]
    show (do
      let later ← rolesBySlices (front ++ c :: s) (s.length + 1) (step place c s.head?).2
        (front.byteSize + c.utf8Size)
      return (c, (step place c s.head?).1) :: later) = _
    rw [hrest]
    rfl

/-- At a cut the slices are what stands on the two sides. -/
theorem stretchBySlices_eq (a b : Text) :
    Pragma.stretchBySlices (a ++ b) a.byteSize = some (Pragma.stretch (a ++ b) a.byteSize) := by
  obtain ⟨front, hfront⟩ := Text.exists_lastLine a
  have hlead : Text.slice? (a ++ b) (a.byteSize - a.lastLine.byteSize) a.byteSize =
      some a.lastLine := by
    have hslice := slice?_append front a.lastLine b
    rw [← List.append_assoc, ← hfront, ← Text.byteSize_append, ← hfront] at hslice
    have hstart : a.byteSize - a.lastLine.byteSize = front.byteSize := by
      have hsize := congrArg Text.byteSize hfront
      rw [Text.byteSize_append] at hsize
      omega
    rwa [hstart]
  rw [Pragma.stretchBySlices, slice?_front]
  show (do
    let lead ← Text.slice? (a ++ b) (a.byteSize - a.lastLine.byteSize) a.byteSize
    let back ← Text.slice? (a ++ b) a.byteSize (Text.byteSize (a ++ b))
    return (if lead.all isBlank then a.byteSize - a.lastLine.byteSize else a.byteSize,
      a.byteSize + back.firstLine.byteSize)) = _
  rw [hlead, slice?_back, Pragma.stretch_cut]
  rfl

theorem isCut_start {inComment : Bool} {s : Text} {t : Token} (h : t ∈ tokensFrom inComment s) :
    s.IsCut t.start := by
  obtain ⟨front, back, hs, hstart⟩ := exists_of_mem_tokensFrom h
  exact ⟨front, t.text ++ back, hs, hstart.symm⟩

theorem readsBySlices (inComment : Bool) (s : Text) : ReadsBySlices inComment s where
  roles := rolesBySlices_eq [] s (.start inComment)
  texts := by
    intro t ht
    obtain ⟨front, back, hs, hstart⟩ := exists_of_mem_tokensFrom ht
    have hslice := slice?_append front t.text back
    rwa [← hs, ← hstart] at hslice
  between := by
    have hordered : (tokensFrom inComment s).Pairwise fun t u => t.stop ≤ u.start := by
      rw [tokensFrom_eq]
      exact (ordered_locate 0 true _).2
    refine hordered.imp_of_mem fun {t u} ht hu hle => ?_
    exact if_pos ⟨Nat.le_trans (Nat.le_add_right _ _) hle, isCut_start ht, isCut_start hu⟩
  stretches := by
    intro t ht
    obtain ⟨front, back, hs, hstart⟩ := exists_of_mem_tokensFrom ht
    rw [hs, hstart]
    exact stretchBySlices_eq front (t.text ++ back)

/-! ### The edits of the passes -/

/-- Replacing a word, deleting directives, renaming calls and words, and inserting in front of the entry
    points: whatever words, names and texts they are given, their edits fit every text, and neither making
    these edits nor reading the text cuts it where it cannot be cut. -/
theorem edits_fit (s : Text) :
    (∀ word new, Edited (((tokens s).find? (·.isWord word)).map (·.replacedBy new)).toList s
      (replaceWord word new s)) ∧
    (∀ extensions, Edited (((pragmas s).filter fun p =>
        p.names extensions && p.behaves Pragma.switchedOn).map Pragma.deletion) s
      (pruneExtensions extensions s)) ∧
    (∀ renames, Edited (callEdits renames (tokens s)) s (renameCalls renames s)) ∧
    (∀ renames, Edited (wordEdits renames (tokens s)) s (renameWords renames s)) ∧
    (∀ new, Edited ((entryPoints s).map (·.precededBy new)) s (insertBeforeEntryPoints new s)) ∧
    ∀ inComment, ReadsBySlices inComment s := by
  refine ⟨fun word new => ?_, fun extensions => ?_, fun renames => ?_, fun renames => ?_,
    fun new => ?_, fun inComment => readsBySlices inComment s⟩
  · cases hword : (tokens s).find? (·.isWord word) with
    | none =>
      rw [replaceWord, hword]
      exact (Splices.nil 0 s).edited
    | some t => exact (splices_replaceWord hword new).edited
  · exact (splices_pruneFrom extensions s false).edited
  · rw [renameCalls_eq_text]
    exact (splices_renameCalls renames s).edited
  · rw [renameWords_eq_text]
    exact (splices_renameWords renames s).edited
  · rw [insertBeforeEntryPoints_eq_text]
    exact (splices_insertBeforeEntryPoints new s).edited

end Shading
