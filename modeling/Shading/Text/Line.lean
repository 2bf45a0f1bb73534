import Shading.Text.Blank

/-!
    Physical lines.

    A line ends after its newline, which belongs to it; what follows the last newline is a line of its
    own unless it is empty. The lines of a text, put together again, are the text. -/

namespace Shading.Text

/-- The lines of a text, each with its newline. -/
def lines : Text → List Text
  | [] => []
  | c :: s =>
    if c = '\n' then [c] :: lines s
    else match lines s with
      | [] => [[c]]
      | line :: rest => (c :: line) :: rest

/-- What stands on the last line of a text, that is, after its last newline. -/
def lastLine (s : Text) : Text := (s.reverse.takeWhile (· ≠ '\n')).reverse

/-- The text through its first newline, or all of it when it has none. -/
def firstLine : Text → Text
  | [] => []
  | c :: s => if c = '\n' then [c] else c :: firstLine s

theorem flatten_lines (s : Text) : (lines s).flatten = s := by
  induction s with
  | nil => rfl
  | cons c s ih =>
    by_cases hc : c = '\n'
    · simp [lines, hc, ih]
    · rw [lines, if_neg hc]
      cases hl : lines s with
      | nil => rw [hl] at ih; simp_all
      | cons line rest => rw [hl] at ih; simp_all

end Shading.Text
