import Shading.Edit

/-!
    Edits that fit a text.

    `Splices n edits s s'` says that the edits, with positions counted from `n`, cut `s` into stretches
    that they keep and stretches that they replace, and that `s'` is the outcome. So the edits are sorted,
    do not overlap, stay inside the text and begin and end between two characters. Such edits can be put
    together from those of parts of the text. -/

namespace Shading

/-- The edit as it stands with `n` more bytes in front. -/
def Edit.shift (n : Nat) (e : Edit) : Edit := ⟨n + e.start, n + e.stop, e.text⟩

/-- The edits cut `s` at their positions and turn it into `s'`. -/
inductive Splices : Nat → List Edit → Text → Text → Prop
  | nil (n : Nat) (s : Text) : Splices n [] s s
  | cons {n : Nat} (kept old new : Text) {edits : List Edit} {s s' : Text}
      (h : Splices (n + kept.byteSize + old.byteSize) edits s s') :
      Splices n (⟨n + kept.byteSize, n + kept.byteSize + old.byteSize, new⟩ :: edits)
        (kept ++ (old ++ s)) (kept ++ (new ++ s'))

namespace Splices

/-- Making the edits gives the outcome. -/
theorem spliceFrom_eq {n : Nat} {edits : List Edit} {s s' : Text} (h : Splices n edits s s') :
    spliceFrom n edits s = s' := by
  induction h with
  | nil n s => rfl
  | @cons n kept old new edits s s' h ih =>
    have hstart : n + kept.byteSize - n = kept.byteSize := by omega
    have hstop : n + kept.byteSize + old.byteSize - n = Text.byteSize (kept ++ old) := by
      rw [Text.byteSize_append]; omega
    rw [spliceFrom, hstart, hstop, Text.takeBytes_byteSize_append, ← List.append_assoc kept old s,
      Text.dropBytes_byteSize_append, ih, List.append_assoc]

theorem splice_eq {edits : List Edit} {s s' : Text} (h : Splices 0 edits s s') :
    splice edits s = s' := h.spliceFrom_eq

/-- What stands in front of all edits is kept. -/
theorem keep (a : Text) {n : Nat} {edits : List Edit} {s s' : Text}
    (h : Splices (n + a.byteSize) edits s s') : Splices n edits (a ++ s) (a ++ s') := by
  generalize hm : n + a.byteSize = m at h
  cases h with
  | nil m s => exact nil n (a ++ s)
  | cons kept old new h =>
    subst hm
    have hsize : n + a.byteSize + kept.byteSize = n + Text.byteSize (a ++ kept) := by
      rw [Text.byteSize_append, Nat.add_assoc]
    rw [hsize] at h ⊢
    rw [← List.append_assoc a, ← List.append_assoc a]
    exact cons (a ++ kept) old new h

/-- Edits of two parts are edits of the whole. -/
theorem append {n : Nat} {edits edits' : List Edit} {a a' b b' : Text} (h : Splices n edits a a')
    (h' : Splices (n + a.byteSize) edits' b b') :
    Splices n (edits ++ edits') (a ++ b) (a' ++ b') := by
  induction h with
  | nil n a => exact keep a h'
  | @cons n kept old new edits s s' h ih =>
    have hsize : n + Text.byteSize (kept ++ (old ++ s))
        = n + kept.byteSize + old.byteSize + s.byteSize := by
      rw [Text.byteSize_append, Text.byteSize_append]; omega
    rw [hsize] at h'
    rw [List.append_assoc kept, List.append_assoc old, List.append_assoc kept, List.append_assoc new]
    exact cons kept old new (ih h')

/-- A single edit, or none. -/
theorem single (n : Nat) (front old new back : Text) :
    Splices n [⟨n + front.byteSize, n + front.byteSize + old.byteSize, new⟩]
      (front ++ (old ++ back)) (front ++ (new ++ back)) :=
  cons front old new (nil _ back)

/-- Edits of a text are edits of it wherever it stands. -/
theorem shift (k : Nat) {n : Nat} {edits : List Edit} {s s' : Text} (h : Splices n edits s s') :
    Splices (k + n) (edits.map (Edit.shift k)) s s' := by
  induction h with
  | nil n s => exact nil (k + n) s
  | @cons n kept old new edits s s' h ih =>
    have hstart : k + (n + kept.byteSize) = k + n + kept.byteSize := (Nat.add_assoc ..).symm
    have hstop : k + (n + kept.byteSize + old.byteSize) = k + n + kept.byteSize + old.byteSize := by
      rw [← Nat.add_assoc, hstart]
    rw [hstop] at ih
    rw [List.map_cons, Edit.shift, hstart, hstop]
    exact cons kept old new ih

/-- Edits of two parts, each counted from the beginning of its part. -/
theorem append_shift {edits edits' : List Edit} {a a' b b' : Text} (h : Splices 0 edits a a')
    (h' : Splices 0 edits' b b') :
    Splices 0 (edits ++ edits'.map (Edit.shift a.byteSize)) (a ++ b) (a' ++ b') := by
  have hback := h'.shift a.byteSize
  refine h.append ?_
  rwa [Nat.zero_add]

/-- Deletions that leave a text as long as before delete nothing. -/
theorem eq_of_byteSize {n : Nat} {edits : List Edit} {s s' : Text} (h : Splices n edits s s')
    (hdelete : ∀ e ∈ edits, e.text = []) : s'.byteSize ≤ s.byteSize ∧
      (s'.byteSize = s.byteSize → ∀ e ∈ edits, e.start = e.stop) := by
  induction h with
  | nil n s => exact ⟨Nat.le_refl _, fun _ _ he => absurd he List.not_mem_nil⟩
  | @cons n kept old new edits s s' h ih =>
    rw [List.forall_mem_cons] at hdelete
    obtain ⟨hle, heq⟩ := ih hdelete.2
    have hnew : new = [] := hdelete.1
    simp only [hnew, Text.byteSize_append, Text.byteSize_nil]
    refine ⟨by omega, fun hsame => ?_⟩
    rw [List.forall_mem_cons]
    refine ⟨?_, heq (by omega)⟩
    show n + kept.byteSize = n + kept.byteSize + old.byteSize
    omega

end Splices

end Shading
