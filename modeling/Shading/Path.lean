import Shading.Text.Blank

/-!
    Paths.

    A path is a text of names with slashes between them. It is absolute when it begins with a slash.
    Empty names and the name `.` are idle: they lead nowhere, save that a path may begin with `./`. The
    parent of a path is what stands in front of its last name, without the idle names between. -/

namespace Shading

/-- A path, as it is written. -/
abbrev Path := Text

namespace Path

/-- The names of a path, between its slashes. -/
def segments : Path → List Text
  | [] => [[]]
  | c :: s =>
    if c = '/' then [] :: segments s
    else match segments s with
      | [] => [[c]]
      | name :: rest => (c :: name) :: rest

/-- Names with slashes between them. -/
def ofSegments : List Text → Path
  | [] => []
  | [name] => name
  | name :: rest => name ++ '/' :: ofSegments rest

/-- The path begins with a slash. -/
def isAbsolute (p : Path) : Bool := p.head? == some '/'

/-- The path ends with a slash. -/
def endsWithSlash (p : Path) : Bool := p.getLast? == some '/'

/-- The name leads nowhere. -/
def isIdle (name : Text) : Bool := name.isEmpty || name == ['.']

/-- The beginning that a path keeps whatever follows, a root or a leading `.`, and what follows. -/
def lead : Path → Text × Path
  | '/' :: rest => (['/'], rest)
  | ['.'] => (['.'], [])
  | '.' :: '/' :: rest => (['.'], '/' :: rest)
  | p => ([], p)

/-- The names without the idle ones at the end. -/
def dropIdleEnd (names : List Text) : List Text := (names.reverse.dropWhile isIdle).reverse

/-- The path without its last name, if it has one. -/
def parent? (p : Path) : Option Path :=
  match (dropIdleEnd (segments p.lead.2)).reverse with
  | [] => if p.lead.1 = ['.'] then some [] else none
  | _ :: before => some (p.lead.1 ++ ofSegments (dropIdleEnd before.reverse))

/-- The second path as seen from the first; an absolute path stays as it is. -/
def join (base p : Path) : Path :=
  if isAbsolute p || base.isEmpty || endsWithSlash base then
    if isAbsolute p then p else base ++ p
  else base ++ '/' :: p

theorem segments_ne_nil (p : Path) : segments p ≠ [] := by
  cases p with
  | nil => simp [segments]
  | cons c s =>
    rw [segments]
    split
    · simp
    · split <;> simp

/-- A path is its names with slashes between them. -/
theorem ofSegments_segments (p : Path) : ofSegments (segments p) = p := by
  induction p with
  | nil => rfl
  | cons c s ih =>
    rw [segments]
    cases hs : segments s with
    | nil => exact absurd hs (segments_ne_nil s)
    | cons name rest =>
      rw [hs] at ih
      split
      · next hc => simp [ofSegments, ih, hc]
      · cases rest with
        | nil => simpa [ofSegments] using ih
        | cons other rest => simpa [ofSegments] using ih

end Path

end Shading
