import Shading.Json.Reader
import Shading.Json.Value
import Shading.Backend
import Shading.DefineSet
import Shading.Stage

/-!
    Stages, backends and define sets as JSON.

    A stage and a backend are their names, spelled exactly; a define set is the list of its names. On
    reading, every item of a define set is an entry like any other. -/

namespace Shading

open Json

/-- A stage as JSON. -/
def Stage.toJson (stage : Stage) : Value := .string stage.name.toList

/-- Read a stage. -/
def Stage.read : Reader Stage := readChoice (Stage.all.map fun stage => (stage.name, stage))

/-- A backend as JSON. -/
def Backend.toJson (backend : Backend) : Value := .string backend.name.toList

/-- Read a backend. -/
def Backend.read : Reader Backend :=
  readChoice (Backend.all.map fun backend => (backend.name, backend))

/-- A define set as JSON. -/
def DefineSet.toJson (set : DefineSet) : Value := .list (set.names.map .string)

/-- Read a define set. -/
def DefineSet.read : Reader DefineSet := fun s =>
  (readList (readString "a string") s).map fun (entries, rest) => (.ofEntries entries, rest)

end Shading
