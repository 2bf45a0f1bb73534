import Shading.BuiltinShaders
import Shading.FileSystem
import Shading.Manifest
import Shading.Registry

/-!
    Running requests.

    A request adapts one shader, or the jobs of a manifest one after another, or lists the backends. It
    runs on a host, which reads and writes files and prints: the machine that the program is started on,
    or a workspace, a file system and a printed text that a run changes. The first failure ends a run. A
    shader is read and adapted before anything is made or printed for it. -/

namespace Shading

/-- Why a run fails. -/
inductive Failure where
  | dialect (error : DialectError)
  | io (path : Path) (cause : IoCause)
  | manifest (problem : Json.Problem)
  | unknownBuiltin (name : Text)
  | missingInput
  deriving DecidableEq, Repr

/-- The wording of a failure to do something with a path. -/
def ioMessage (path : Path) (cause : IoCause) : String :=
  "IO error on " ++ String.ofList path ++ ": " ++ cause.message

/-- The wording of a failure. -/
def Failure.message : Failure → String
  | .dialect error => "Dialect error: " ++ error.message
  | .io path cause => ioMessage path cause
  | .manifest problem => "Manifest error: " ++ problem.message
  | .unknownBuiltin name => "Unknown built-in shader: " ++ String.ofList name
  | .missingInput => "No input given: pass a shader file, --builtin or --manifest"

/-- What a run needs of the machine. -/
structure Host (m : Type → Type) where
  /-- The text of a file. -/
  read : Path → m (Except IoCause Text)
  /-- Make one folder. -/
  makeFolder : Path → m (Except IoCause Unit)
  /-- The path leads to a folder. -/
  isFolder : Path → m Bool
  /-- Give a file a text. -/
  write : Path → Text → m (Except IoCause Unit)
  /-- Print a text. -/
  print : Text → m Unit

/-- Where a shader comes from. -/
inductive Source where
  | file (path : Path)
  | builtin (name : Text)
  deriving DecidableEq, Repr

/-- One shader to adapt, as the command line asks for it. -/
structure Single where
  source : Option Source
  stage : Stage
  backend : Backend
  defines : List Text
  definesFile : Option Path
  output : Option Path
  deriving DecidableEq, Repr

/-- What the program is asked to do. -/
inductive Request where
  | listBackends
  | manifest (path : Path)
  | single (single : Single)
  deriving DecidableEq, Repr

/-- The listing of the backends. -/
def backendListing : Text :=
  Backend.all.flatMap fun backend =>
    (backend.name ++ " " ++ (match Registry.defaults.get backend with
      | .ok dialect => dialect.name
      | .error _ => "(unsupported)") ++ "\n").toList

/-! ### Steps of a run -/

section

variable {m : Type → Type} [Monad m] (host : Host m)

/-- Do something with a path; a refusal is a failure that names the path. -/
def onPath (path : Path) (act : m (Except IoCause α)) : ExceptT Failure m α :=
  ExceptT.mk do
    match ← act with
    | .ok a => return .ok a
    | .error cause => return .error (.io path cause)

/-- The text of a file. -/
def readText (path : Path) : ExceptT Failure m Text := onPath path (host.read path)

/-- Make a folder and those above it, at most `depth` of them; a folder that is there already will do.
    What was made before a refusal stays. -/
def makeFoldersWithin : Nat → Path → m (Except IoCause Unit)
  | 0, _ => pure (.error .notFound)
  | depth + 1, path =>
    if path.isEmpty then pure (.ok ())
    else do
      match ← host.makeFolder path with
      | .ok () => pure (.ok ())
      | .error cause =>
        match cause, path.parent? with
        | .notFound, some above =>
          match ← makeFoldersWithin depth above with
          | .error cause => pure (.error cause)
          | .ok () =>
            match ← host.makeFolder path with
            | .ok () => pure (.ok ())
            | .error cause => return if ← host.isFolder path then .ok () else .error cause
        | _, _ => return if ← host.isFolder path then .ok () else .error cause

/-- Make a folder and those above it. A parent is shorter than its path, so the length of the path bounds
    the depth. -/
def makeFolders (path : Path) : m (Except IoCause Unit) :=
  makeFoldersWithin host (path.length + 1) path

/-- Write a result to a file, with the folders above it, or print it. -/
def deliver (output : Option Path) (result : Text) : ExceptT Failure m Unit :=
  match output with
  | none => ExceptT.lift (host.print result)
  | some path => do
    match path.parent? with
    | some (c :: folder) => onPath (c :: folder) (makeFolders host (c :: folder))
    | _ => pure ()
    onPath path (host.write path result)

/-- Adapt a text for a backend. -/
def adaptFor (backend : Backend) (defines : DefineSet) (stage : Stage) (s : Text) :
    ExceptT Failure m Text :=
  match Registry.defaults.adapt backend defines stage s with
  | .ok result => pure result
  | .error error => throw (.dialect error)

/-- Run one job. -/
def runJob (job : Job) : ExceptT Failure m Unit := do
  let s ← readText host job.input
  let result ← adaptFor job.backend job.defines job.stage s
  deliver host job.output result

/-- Run jobs one after another, up to the first that fails. -/
def runJobs : List Job → ExceptT Failure m Unit
  | [] => pure ()
  | job :: jobs => do
    runJob host job
    runJobs jobs

/-- The jobs of the manifest at a path. -/
def loadManifest (path : Path) : ExceptT Failure m (List Job) := do
  let s ← readText host path
  match Manifest.parseAt path s with
  | .ok jobs => pure jobs
  | .error problem => throw (.manifest problem)

/-- The text of a shader. -/
def readSource : Option Source → ExceptT Failure m Text
  | none => throw .missingInput
  | some (.file path) => readText host path
  | some (.builtin name) =>
    match BuiltinShaders.named? name with
    | some s => pure s
    | none => throw (.unknownBuiltin name)

/-- The symbols of the command line, then those that a file defines. -/
def collectDefines (entries : List Text) : Option Path → ExceptT Failure m DefineSet
  | none => pure (.ofEntries entries)
  | some path => do
    let s ← readText host path
    return (DefineSet.ofEntries entries).insertAll (DefineSet.ofDirectives s).names

/-- Adapt one shader. -/
def runSingle (single : Single) : ExceptT Failure m Unit := do
  let s ← readSource host single.source
  let defines ← collectDefines host single.defines single.definesFile
  let result ← adaptFor single.backend defines single.stage s
  deliver host single.output result

/-- Do what is asked. -/
def run : Request → ExceptT Failure m Unit
  | .listBackends => ExceptT.lift (host.print backendListing)
  | .manifest path => do runJobs host (← loadManifest host path)
  | .single single => runSingle host single

end

/-! ### Workspaces -/

/-- A file system with what has been printed. -/
structure Workspace where
  files : FileSystem
  printed : Text

namespace Workspace

/-- The text of a file in a file system. -/
def readText (files : FileSystem) (path : Path) : Except IoCause Text :=
  match files.read path with
  | .error cause => .error cause
  | .ok content =>
    match Text.ofBytes? content with
    | some s => .ok s
    | none => .error .notText

/-- The workspace as a host. -/
def host : Host (StateM Workspace) where
  read path := fun w => (readText w.files path, w)
  makeFolder path := fun w =>
    match w.files.makeFolder path with
    | .ok files => (.ok (), { w with files })
    | .error cause => (.error cause, w)
  isFolder path := fun w => (w.files.isFolder path, w)
  write path s := fun w =>
    match w.files.write path s.toBytes with
    | .ok files => (.ok (), { w with files })
    | .error cause => (.error cause, w)
  print s := fun w => ((), { w with printed := w.printed ++ s })

/-- Run a request on a file system. -/
def run (request : Request) (files : FileSystem) : Except Failure Unit × Workspace :=
  ((Shading.run host request).run ⟨files, []⟩)

end Workspace

end Shading
