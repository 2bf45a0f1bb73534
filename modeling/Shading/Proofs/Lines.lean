import Shading.Text.Bytes
import Shading.Text.Line

/-!
    Cutting a text at its newlines.

    A text is empty, a last line without a newline, or a line in front of a text; what is said line by
    line is proved along this (`Text.line_induction`). Lines are counted by the newlines in front of a
    position, and a text is a single line when its first line is all of it. -/

namespace Shading.Text

/-- The number of the physical line on which a position lies. -/
def lineNumber (s : Text) (position : Nat) : Nat := (s.takeBytes position).count '\n'

/-- A text is empty, a last line, or a line in front of a text. -/
@[elab_as_elim] theorem line_induction {motive : Text → Prop} (nil : motive [])
    (last : ∀ l, l ≠ [] → '\n' ∉ l → motive l)
    (line : ∀ l s, '\n' ∉ l → motive s → motive ((l ++ ['\n']) ++ s)) (s : Text) : motive s := by
  by_cases hmem : '\n' ∈ s
  · obtain ⟨l, s', hs, hl⟩ := List.eq_append_cons_of_mem hmem
    have hlength : s'.length < s.length := by
      rw [hs, List.length_append, List.length_cons]; omega
    have ih := line_induction nil last line s'
    have hcut : s = (l ++ ['\n']) ++ s' := by rw [hs, List.append_assoc]; rfl
    rw [hcut]
    exact line l s' hl ih
  · cases s with
    | nil => exact nil
    | cons c s => exact last (c :: s) (List.cons_ne_nil c s) hmem
termination_by s.length

theorem lines_last : ∀ {l : Text}, l ≠ [] → '\n' ∉ l → lines l = [l]
  | [], h, _ => absurd rfl h
  | [c], _, h => by
    rw [lines, if_neg (List.ne_of_not_mem_cons h).symm, lines]
  | c :: d :: l, _, h => by
    rw [lines, if_neg (List.ne_of_not_mem_cons h).symm,
      lines_last (List.cons_ne_nil d l) (List.not_mem_of_not_mem_cons h)]

theorem lines_line_append (s : Text) : ∀ {l : Text}, '\n' ∉ l →
    lines ((l ++ ['\n']) ++ s) = (l ++ ['\n']) :: lines s
  | [], _ => by rw [List.nil_append, List.singleton_append, lines, if_pos rfl]
  | c :: l, h => by
    rw [List.cons_append, List.cons_append, lines, if_neg (List.ne_of_not_mem_cons h).symm,
      lines_line_append s (List.not_mem_of_not_mem_cons h)]

/-! ### Positions -/

theorem byteSize_eq_zero {s : Text} : s.byteSize = 0 ↔ s = [] := by
  cases s with
  | nil => exact ⟨fun _ => rfl, fun _ => rfl⟩
  | cons c s =>
    have hc := c.utf8Size_pos
    refine ⟨fun h => ?_, fun h => absurd h (List.cons_ne_nil c s)⟩
    rw [byteSize_cons] at h
    omega

@[simp] theorem takeBytes_zero (s : Text) : takeBytes 0 s = [] := by cases s <;> rfl

theorem takeBytes_subset (n : Nat) (s : Text) : takeBytes n s ⊆ s := by
  intro c hc
  rw [← takeBytes_append_dropBytes n s]
  exact List.mem_append_left _ hc

theorem takeBytes_append_of_le : ∀ {a : Text} {n : Nat} (b : Text), n ≤ a.byteSize →
    takeBytes n (a ++ b) = takeBytes n a
  | [], n, b, h => by
    have hn : n = 0 := Nat.le_zero.mp h
    rw [hn, takeBytes_zero, takeBytes_zero]
  | c :: a, 0, b, _ => by rw [takeBytes_zero, takeBytes_zero]
  | c :: a, n + 1, b, h => by
    rw [byteSize_cons] at h
    have hn : n + 1 - c.utf8Size ≤ byteSize a := by omega
    rw [List.cons_append, takeBytes, takeBytes, takeBytes_append_of_le b hn]

theorem takeBytes_byteSize_add (n : Nat) (b : Text) : ∀ a : Text,
    takeBytes (a.byteSize + n) (a ++ b) = a ++ takeBytes n b
  | [] => by rw [byteSize_nil, Nat.zero_add]; rfl
  | c :: a => by
    have hc := c.utf8Size_pos
    obtain ⟨k, hk⟩ : ∃ k, byteSize (c :: a) + n = k + 1 :=
      ⟨byteSize (c :: a) + n - 1, by rw [byteSize_cons]; omega⟩
    have hrest : k + 1 - c.utf8Size = byteSize a + n := by rw [← hk, byteSize_cons]; omega
    rw [hk, List.cons_append, takeBytes, hrest, takeBytes_byteSize_add n b a, List.cons_append]

theorem takeBytes_isPrefix : ∀ {m n : Nat} (s : Text), m ≤ n → takeBytes m s <+: takeBytes n s
  | 0, n, s, _ => by
    rw [takeBytes_zero]
    exact List.nil_prefix
  | m + 1, n + 1, [], _ => List.prefix_refl []
  | m + 1, n + 1, c :: s, h => by
    rw [takeBytes, takeBytes, List.cons_prefix_cons]
    exact ⟨rfl, takeBytes_isPrefix s (Nat.sub_le_sub_right h _)⟩

/-- Lines are counted up. -/
theorem lineNumber_mono (s : Text) {m n : Nat} (h : m ≤ n) : lineNumber s m ≤ lineNumber s n :=
  (takeBytes_isPrefix s h).sublist.count_le '\n'

/-- At a cut, lines are counted by the newlines in front of it. -/
theorem lineNumber_cut (a b : Text) : lineNumber (a ++ b) a.byteSize = a.count '\n' := by
  rw [lineNumber, takeBytes_byteSize_append]

theorem lineNumber_eq_zero {l : Text} (h : '\n' ∉ l) (n : Nat) : lineNumber l n = 0 := by
  rw [lineNumber, List.count_eq_zero]
  exact fun hmem => h (takeBytes_subset n l hmem)

/-- In front of the end of a line stands no newline. -/
theorem lineNumber_line : ∀ {line : Text} {n : Nat}, firstLine line = line → n < line.byteSize →
    lineNumber line n = 0
  | [], _, _, h => absurd h (Nat.not_lt_zero _)
  | c :: s, 0, _, _ => by rw [lineNumber, takeBytes_zero]; rfl
  | [c], n + 1, _, h => by
    have hc : c ≠ '\n' := by
      rintro rfl
      exact Nat.not_lt_zero n (Nat.lt_of_succ_lt_succ h)
    have hnil : takeBytes (n + 1 - c.utf8Size) [] = [] := by
      cases n + 1 - c.utf8Size <;> rfl
    rw [lineNumber, takeBytes, List.count_cons_of_ne hc, hnil]
    rfl
  | c :: d :: s, n + 1, hline, h => by
    have hd := d.utf8Size_pos
    rw [byteSize_cons] at h
    rw [firstLine] at hline
    have hc : c ≠ '\n' := by
      rintro rfl
      rw [if_pos rfl, List.cons.injEq] at hline
      exact absurd hline.2.symm (List.cons_ne_nil d s)
    rw [if_neg hc, List.cons.injEq] at hline
    have hlt : n + 1 - c.utf8Size < byteSize (d :: s) := by rw [byteSize_cons] at h ⊢; omega
    have ih := lineNumber_line hline.2 hlt
    rw [lineNumber, takeBytes, List.count_cons_of_ne hc, ← lineNumber, ih]

theorem byteSize_newline (l : Text) : byteSize (l ++ ['\n']) = l.byteSize + 1 := by
  rw [byteSize_append]; rfl

/-- A position in the first line. -/
theorem lineNumber_line_append {l : Text} (h : '\n' ∉ l) (s : Text) {n : Nat}
    (hn : n < byteSize (l ++ ['\n'])) : lineNumber ((l ++ ['\n']) ++ s) n = 0 := by
  rw [byteSize_newline] at hn
  rw [lineNumber, List.append_assoc, takeBytes_append_of_le _ (by omega), ← lineNumber,
    lineNumber_eq_zero h]

/-- A position behind the first line. -/
theorem lineNumber_add {l : Text} (h : '\n' ∉ l) (s : Text) (n : Nat) :
    lineNumber ((l ++ ['\n']) ++ s) (byteSize (l ++ ['\n']) + n) = lineNumber s n + 1 := by
  rw [lineNumber, takeBytes_byteSize_add, List.count_append, List.count_append,
    List.count_eq_zero.mpr h, lineNumber, List.count_singleton_self]
  omega

/-! ### First and last lines -/

theorem firstLine_of_not_mem : ∀ {l : Text}, '\n' ∉ l → firstLine l = l
  | [], _ => rfl
  | c :: l, h => by
    rw [firstLine, if_neg (List.ne_of_not_mem_cons h).symm,
      firstLine_of_not_mem (List.not_mem_of_not_mem_cons h)]

theorem firstLine_append_of_mem (b : Text) : ∀ {a : Text}, '\n' ∈ a →
    firstLine (a ++ b) = firstLine a
  | [], h => absurd h List.not_mem_nil
  | c :: a, h => by
    rw [List.cons_append, firstLine, firstLine]
    by_cases hc : c = '\n'
    · rw [if_pos hc, if_pos hc]
    · have ha : '\n' ∈ a := (List.mem_cons.mp h).resolve_left fun hn => hc hn.symm
      rw [if_neg hc, if_neg hc, firstLine_append_of_mem b ha]

theorem firstLine_newline : ∀ {l : Text}, '\n' ∉ l → firstLine (l ++ ['\n']) = l ++ ['\n']
  | [], _ => rfl
  | c :: l, h => by
    rw [List.cons_append, firstLine, if_neg (List.ne_of_not_mem_cons h).symm,
      firstLine_newline (List.not_mem_of_not_mem_cons h)]

theorem firstLine_of_cons {c : Char} {s : Text} (h : firstLine (c :: s) = c :: s) :
    firstLine s = s := by
  rw [firstLine] at h
  split at h
  · rw [← (List.cons.inj h).2]
    rfl
  · exact (List.cons.inj h).2

theorem lines_of_firstLine : ∀ {s : Text}, s ≠ [] → firstLine s = s → lines s = [s]
  | [], h, _ => absurd rfl h
  | c :: s, _, hline => by
    have ih := fun h => lines_of_firstLine (s := s) h (firstLine_of_cons hline)
    rw [firstLine] at hline
    rw [lines]
    split at hline
    next hc =>
      rw [if_pos hc, ← (List.cons.inj hline).2, lines]
    next hc =>
      rw [if_neg hc]
      cases s with
      | nil => rfl
      | cons d s => rw [ih (List.cons_ne_nil d s)]

theorem byteSize_firstLine_pos {s : Text} (h : s ≠ []) : 0 < s.firstLine.byteSize := by
  cases s with
  | nil => exact absurd rfl h
  | cons c s =>
    have hc := c.utf8Size_pos
    rw [firstLine]
    split <;> rw [byteSize_cons] <;> omega

/-- A line cut in two: the newline, if there is one, stands at the end of the second part. -/
theorem firstLine_cut {b : Text} (hb : b ≠ []) : ∀ {a : Text}, firstLine (a ++ b) = a ++ b →
    '\n' ∉ a ∧ firstLine b = b
  | [], h => ⟨List.not_mem_nil, h⟩
  | c :: a, h => by
    rw [List.cons_append, firstLine] at h
    by_cases hc : c = '\n'
    · rw [if_pos hc, List.cons.injEq] at h
      exact absurd (List.append_eq_nil_iff.mp h.2.symm).2 hb
    · rw [if_neg hc, List.cons.injEq] at h
      obtain ⟨ha, hline⟩ := firstLine_cut hb h.2
      refine ⟨fun hmem => ?_, hline⟩
      rcases List.mem_cons.mp hmem with hn | hn
      · exact hc hn.symm
      · exact ha hn

theorem newline_mem_of_cut {l a b : Text} (h : l ++ ['\n'] = a ++ b) (hb : b ≠ []) : '\n' ∈ b := by
  have hlast := congrArg List.getLast? h
  rw [List.getLast?_append, List.getLast?_append, List.getLast?_singleton, Option.some_or] at hlast
  cases hx : b.getLast? with
  | none => exact absurd (List.getLast?_eq_none_iff.mp hx) hb
  | some x =>
    rw [hx, Option.some_or, Option.some.injEq] at hlast
    rw [hlast]
    exact List.mem_of_getLast? hx

theorem lastLine_of_not_mem {l : Text} (h : '\n' ∉ l) : lastLine l = l := by
  have hall : ∀ c ∈ l.reverse, decide (c ≠ '\n') = true := by
    intro c hc
    rw [decide_eq_true_iff]
    rintro rfl
    exact h (List.mem_reverse.mp hc)
  have htake : (l.reverse ++ []).takeWhile (· ≠ '\n') = l.reverse ++ [].takeWhile (· ≠ '\n') :=
    List.takeWhile_append_of_pos hall
  rw [List.append_nil, List.takeWhile_nil, List.append_nil] at htake
  rw [lastLine, htake, List.reverse_reverse]

theorem lastLine_newline_append (a b : Text) : lastLine ((a ++ ['\n']) ++ b) = lastLine b := by
  rw [lastLine, List.reverse_append, List.reverse_append, List.takeWhile_append, lastLine]
  split
  next h =>
    have hall := (List.takeWhile_prefix (· ≠ '\n')).eq_of_length h
    rw [hall]
    exact congrArg List.reverse (List.append_nil _)
  next => rfl

/-- A text ends in its last line. -/
theorem exists_lastLine (a : Text) : ∃ front, a = front ++ a.lastLine := by
  have hcut := List.takeWhile_append_dropWhile (p := (· ≠ '\n')) (l := a.reverse)
  have hback := congrArg List.reverse hcut
  rw [List.reverse_append, List.reverse_reverse] at hback
  exact ⟨_, hback.symm⟩

theorem byteSize_lastLine_le (a : Text) : a.lastLine.byteSize ≤ a.byteSize := by
  obtain ⟨front, hcut⟩ := exists_lastLine a
  have hsize := congrArg byteSize hcut
  rw [byteSize_append] at hsize
  exact Nat.le.intro ((Nat.add_comm _ _).trans hsize.symm)

end Shading.Text
