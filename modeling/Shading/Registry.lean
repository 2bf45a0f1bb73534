import Shading.Backend
import Shading.Dialect

/-!
    Which dialect a backend takes.

    A registry maps backends to dialects. The default one knows every backend but Metal, whose shading
    language is too far from the neutral syntax for an adaptation of the text. -/

namespace Shading

/-- What a user can ask for in vain. -/
inductive DialectError where
  | unsupportedBackend (backend : Backend)
  | unknownBackend (name : Text)
  | unknownStage (name : Text)
  deriving DecidableEq, Repr

/-- The wording of an error. -/
def DialectError.message : DialectError → String
  | .unsupportedBackend backend =>
    "No shader dialect registered for backend: " ++ backend.name
  | .unknownBackend name => "Unknown backend: " ++ String.ofList name
  | .unknownStage name => "Unknown shading stage: " ++ String.ofList name

/-- The stage of a name, or the error that repeats it. -/
def Stage.ofText (s : Text) : Except DialectError Stage :=
  match Stage.ofText? s with
  | some stage => .ok stage
  | none => .error (.unknownStage s)

/-- The backend of a name, or the error that repeats it. -/
def Backend.ofText (s : Text) : Except DialectError Backend :=
  match Backend.ofText? s with
  | some backend => .ok backend
  | none => .error (.unknownBackend s)

/-- A dialect for each backend that has one. -/
structure Registry where
  dialect? : Backend → Option Dialect

namespace Registry

/-- The registry without entries. -/
def empty : Registry := ⟨fun _ => none⟩

/-- Give a backend a dialect, in place of the one it may have. -/
def register (registry : Registry) (backend : Backend) (dialect : Dialect) : Registry :=
  ⟨fun b => if b = backend then some dialect else registry.dialect? b⟩

/-- The built-in mapping. -/
def defaults : Registry :=
  (((empty.register .gles2 .glsl100).register .gles3 .glsl300es).register
    .glCore .glsl300es).register .vulkan .glsl450

/-- The dialect of a backend, or the error that it has none. -/
def get (registry : Registry) (backend : Backend) : Except DialectError Dialect :=
  match registry.dialect? backend with
  | some dialect => .ok dialect
  | none => .error (.unsupportedBackend backend)

/-- The backends that have a dialect, in order, with their dialects. -/
def entries (registry : Registry) : List (Backend × Dialect) :=
  Backend.all.filterMap fun b => (registry.dialect? b).map fun dialect => (b, dialect)

/-- The entries in braces, for a listing. -/
def describe (registry : Registry) : String :=
  let entry := fun (b, dialect) =>
    Backend.label b ++ ": " ++ String.ofList (Text.quoted (Dialect.name dialect).toList)
  "\x7b" ++ String.intercalate ", " (registry.entries.map entry) ++ "\x7d"

/-- Adapt a shader for a backend. -/
def adapt (registry : Registry) (backend : Backend) (defines : DefineSet) (stage : Stage)
    (s : Text) : Except DialectError Text :=
  (registry.get backend).map fun dialect => dialect.adapt defines stage s

theorem get_register (registry : Registry) (backend : Backend) (dialect : Dialect) :
    (registry.register backend dialect).get backend = .ok dialect := by
  simp [get, register]

theorem get_register_of_ne (registry : Registry) (dialect : Dialect) {b backend : Backend}
    (h : b ≠ backend) : (registry.register backend dialect).get b = registry.get b := by
  simp [get, register, h]

end Registry

end Shading
