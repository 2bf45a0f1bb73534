import Shading.Interchange
import Shading.Path

/-!
    Job manifests.

    A manifest is a JSON list of jobs. A job names a shader, the stage and the backend it is for, the
    symbols that are defined, and a file for the result. It is written as an object; other members of
    the object are passed over, each of its own may come once, and `output` and `defines` may be left
    out. A job may also be written as the list of these five in order. Relative paths are meant from the
    folder of the manifest. -/

namespace Shading

open Json

/-- One shader to adapt. Without an output the result is printed. -/
structure Job where
  input : Path
  output : Option Path
  stage : Stage
  backend : Backend
  defines : DefineSet
  deriving DecidableEq, Repr

namespace Job

/-- The members of a job. -/
inductive Field where
  | input
  | output
  | stage
  | backend
  | defines
  deriving DecidableEq, Repr

namespace Field

/-- The fields in order. -/
def all : List Field := [.input, .output, .stage, .backend, .defines]

/-- The key of a field. -/
def key : Field → String
  | .input => "input"
  | .output => "output"
  | .stage => "stage"
  | .backend => "backend"
  | .defines => "defines"

/-- The field of a key. -/
def ofKey? (key : Text) : Option Field := all.find? fun field => field.key.toList == key

end Field

/-- What has been read of a job. -/
structure Draft where
  input : Option Path
  output : Option (Option Path)
  stage : Option Stage
  backend : Option Backend
  defines : Option DefineSet

namespace Draft

/-- Nothing has been read. -/
def empty : Draft := ⟨none, none, none, none, none⟩

/-- The field has been read. -/
def has (d : Draft) : Field → Bool
  | .input => d.input.isSome
  | .output => d.output.isSome
  | .stage => d.stage.isSome
  | .backend => d.backend.isSome
  | .defines => d.defines.isSome

/-- The job that has been read, if nothing is missing. -/
def job (d : Draft) : Except Problem Job :=
  match d.input, d.stage, d.backend with
  | some input, some stage, some backend =>
    .ok ⟨input, d.output.join, stage, backend, d.defines.getD .empty⟩
  | none, _, _ => .error (.mismatch (.missingField Field.input.key))
  | _, none, _ => .error (.mismatch (.missingField Field.stage.key))
  | _, _, none => .error (.mismatch (.missingField Field.backend.key))

end Draft

/-- Read a path. -/
def readPath : Reader Path := readString "path string"

/-- Read the value of a field. -/
def readField (d : Draft) (field : Field) (s : Text) : Except Problem (Draft × Text) :=
  match field with
  | .input => (readPath s).map fun (a, rest) => ({ d with input := some a }, rest)
  | .output => (readOptional readPath s).map fun (a, rest) => ({ d with output := some a }, rest)
  | .stage => (Stage.read s).map fun (a, rest) => ({ d with stage := some a }, rest)
  | .backend => (Backend.read s).map fun (a, rest) => ({ d with backend := some a }, rest)
  | .defines => (DefineSet.read s).map fun (a, rest) => ({ d with defines := some a }, rest)

/-- Read a member of a job behind the quote that opens its key. -/
def readMember (d : Draft) (s : Text) : Except Problem (Draft × Text) := do
  let (key, s) ← readQuoted s
  match Field.ofKey? key with
  | none =>
    let s ← skipValue (← readColon s)
    return (d, s)
  | some field =>
    if d.has field then .error (.mismatch (.duplicateField field.key))
    else readField d field (← readColon s)

/-- Read the members of a job. Every member takes a character at least, so the length of the text bounds
    their number. -/
def readMembers : Nat → Bool → Draft → Text → Except Problem (Draft × Text)
  | 0, _, _, _ => .error (.unfinished .object)
  | bound + 1, first, d, s =>
    match nextMember first s with
    | .error problem => .error problem
    | .ok (.close rest) => .ok (d, rest)
    | .ok (.item s) =>
      match readMember d s with
      | .error problem => .error problem
      | .ok (d, rest) => readMembers bound false d rest

/-- The length of a list that ends too early. -/
def wrongLength (length : Nat) : Problem :=
  .mismatch (.wrongLength length "struct Job with 5 elements")

/-- Read an item of a list, which has to be there. -/
def readRequired (index : Nat) (item : Reader α) : Reader α := fun s => do
  match ← nextItem (index == 0) s with
  | .close _ => .error (wrongLength index)
  | .item s => item s

/-- Read a job as a list, behind its bracket. -/
def readPositional : Reader Job := fun s => do
  let (input, s) ← readRequired 0 readPath s
  match ← nextItem false s with
  | .close _ => .error (wrongLength 2)
  | .item s =>
    let (output, s) ← readOptional readPath s
    let (stage, s) ← readRequired 2 Stage.read s
    let (backend, s) ← readRequired 3 Backend.read s
    match ← nextItem false s with
    | .close rest => return (⟨input, output, stage, backend, .empty⟩, rest)
    | .item s =>
      let (defines, s) ← DefineSet.read s
      let rest ← readListEnd s
      return (⟨input, output, stage, backend, defines⟩, rest)

/-- Read a job. -/
def read : Reader Job := fun s =>
  match skipBlank s with
  | [] => .error (.unfinished .value)
  | '[' :: rest => readPositional rest
  | '\x7b' :: rest => do
    let (d, rest) ← readMembers (rest.length + 1) true .empty rest
    let job ← d.job
    return (job, rest)
  | other => .error (unexpected "struct Job" other)

/-- A job as JSON; an absent output is left out. -/
def toJson (job : Job) : Value :=
  let output := match job.output with
    | some path => [(Field.output.key, Value.string path)]
    | none => []
  .object ((Field.input.key, .string job.input) :: output ++
    [(Field.stage.key, job.stage.toJson), (Field.backend.key, job.backend.toJson),
     (Field.defines.key, job.defines.toJson)])

/-- A job with its paths as seen from a folder. -/
def rebase (base : Path) (job : Job) : Job :=
  { job with input := base.join job.input, output := job.output.map base.join }

end Job

namespace Manifest

/-- The jobs that the text of a manifest lists. -/
def parse (s : Text) : Except Problem (List Job) := readAll (readList Job.read) s

/-- The text of a manifest that lists the jobs. -/
def render (jobs : List Job) : Text := (Value.list (jobs.map Job.toJson)).compact

/-- The folder of a manifest. -/
def folder (p : Path) : Path := p.parent?.getD []

/-- The jobs that the text of a manifest at a path lists, with their paths as seen from where the path
    of the manifest is. -/
def parseAt (p : Path) (s : Text) : Except Problem (List Job) :=
  (parse s).map fun jobs => jobs.map (Job.rebase (folder p))

end Manifest

end Shading
