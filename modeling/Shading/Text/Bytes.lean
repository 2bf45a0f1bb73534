import Shading.Text.Blank

/-!
    Positions in a text, counted in bytes of UTF-8.

    A position counts the bytes in front of it. `takeBytes` and `dropBytes` cut a text at a position,
    and a cut between two characters loses nothing: the front of `a ++ b` at the size of `a` is `a`,
    and the back is `b`. -/

namespace Shading.Text

/-- The bytes that a text takes in UTF-8. -/
def byteSize : Text → Nat
  | [] => 0
  | c :: s => c.utf8Size + byteSize s

/-- The characters that start within the first `n` bytes. -/
def takeBytes : Nat → Text → Text
  | 0, _ => []
  | _ + 1, [] => []
  | n + 1, c :: s => c :: takeBytes (n + 1 - c.utf8Size) s

/-- The characters that start after the first `n` bytes. -/
def dropBytes : Nat → Text → Text
  | 0, s => s
  | _ + 1, [] => []
  | n + 1, c :: s => dropBytes (n + 1 - c.utf8Size) s

@[simp] theorem byteSize_nil : byteSize [] = 0 := rfl

@[simp] theorem byteSize_cons (c : Char) (s : Text) :
    byteSize (c :: s) = c.utf8Size + byteSize s := rfl

@[simp] theorem byteSize_append (a b : Text) : byteSize (a ++ b) = byteSize a + byteSize b := by
  induction a with
  | nil => simp
  | cons c a ih => simp [ih, Nat.add_assoc]

/-- Cutting at any position loses nothing. -/
theorem takeBytes_append_dropBytes : ∀ (n : Nat) (s : Text), takeBytes n s ++ dropBytes n s = s
  | 0, s => by simp [takeBytes, dropBytes]
  | n + 1, [] => by simp [takeBytes, dropBytes]
  | n + 1, c :: s => by
    rw [takeBytes, dropBytes, List.cons_append, takeBytes_append_dropBytes]

theorem takeBytes_byteSize_append (a b : Text) : takeBytes a.byteSize (a ++ b) = a := by
  induction a with
  | nil => simp [takeBytes]
  | cons c a ih =>
    have hc := c.utf8Size_pos
    obtain ⟨n, hn⟩ : ∃ n, c.utf8Size + byteSize a = n + 1 := ⟨c.utf8Size + byteSize a - 1, by omega⟩
    rw [byteSize_cons, hn, List.cons_append, takeBytes, ← hn, Nat.add_sub_cancel_left, ih]

theorem dropBytes_byteSize_append (a b : Text) : dropBytes a.byteSize (a ++ b) = b := by
  induction a with
  | nil => simp [dropBytes]
  | cons c a ih =>
    have hc := c.utf8Size_pos
    obtain ⟨n, hn⟩ : ∃ n, c.utf8Size + byteSize a = n + 1 := ⟨c.utf8Size + byteSize a - 1, by omega⟩
    rw [byteSize_cons, hn, List.cons_append, dropBytes, ← hn, Nat.add_sub_cancel_left, ih]

end Shading.Text
