import Shading.Text.Blank

/-!
    Shading stages.

    The stage of a shader is always given; nothing is concluded from its text. -/

namespace Shading

/-- The stage of the pipeline that a shader belongs to. -/
inductive Stage where
  | vertex
  | fragment
  deriving DecidableEq, Repr

namespace Stage

/-- The stages in order. -/
def all : List Stage := [.vertex, .fragment]

/-- The name of a stage. -/
def name : Stage → String
  | .vertex => "vertex"
  | .fragment => "fragment"

/-- The names by which a user may ask for a stage. -/
def spellings : List (String × Stage) :=
  [("vertex", .vertex), ("vert", .vertex), ("vs", .vertex),
   ("fragment", .fragment), ("frag", .fragment), ("fs", .fragment), ("pixel", .fragment)]

/-- The stage that a user asks for; case and surrounding blanks do not matter. -/
def ofText? (s : Text) : Option Stage :=
  (spellings.find? fun spelling => spelling.1.toList == s.trim.lower).map (·.2)

theorem ofText?_name (stage : Stage) : ofText? stage.name.toList = some stage := by
  cases stage <;> decide

end Stage

end Shading
