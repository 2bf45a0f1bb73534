import Mathlib.Data.List.Forall2
import Shading.Proofs.DefineRuns
import Shading.Proofs.Delivery

/-!
    A manifest as single requests.

    A job can be asked for on its own, and does the same then, on any host (`Single.Asks`). So a manifest
    that loads does what single requests for its jobs do one after another, each on the files that the
    one before leaves, up to the first failure (`Workspace.runEach`). What is done before a failure
    stays: the files that are there keep their contents and no file is new behind the failing request,
    which can have made folders at most, and nothing more is printed. -/

namespace Shading

/-- The request asks for the job: for its files, its stage and its backend, with entries for its set. -/
structure Single.Asks (single : Single) (job : Job) : Prop where
  source : single.source = some (.file job.input)
  stage : single.stage = job.stage
  backend : single.backend = job.backend
  defines : DefineSet.ofEntries single.defines = job.defines
  definesFile : single.definesFile = none
  output : single.output = job.output

theorem Single.Asks.runSingle_eq {m : Type → Type} [Monad m] [LawfulMonad m] (host : Host m)
    {single : Single} {job : Job} (h : single.Asks job) : runSingle host single = runJob host job := by
  unfold runSingle runJob
  rw [h.source, h.stage, h.backend, h.definesFile, h.output, ← h.defines]
  simp only [readSource, collectDefines, pure_bind]

/-- Every job can be asked for, with directives as the entries of its set. -/
theorem Job.exists_asks (job : Job) : ∃ single : Single, single.Asks job :=
  ⟨⟨some (.file job.input), job.stage, job.backend, job.defines.names.map DefineSet.directiveLine,
    none, job.output⟩, rfl, rfl, rfl, DefineSet.ofEntries_directiveLines job.defines, rfl, rfl⟩

theorem exists_asks_all : ∀ jobs : List Job, ∃ singles, List.Forall₂ Single.Asks singles jobs
  | [] => ⟨[], .nil⟩
  | job :: jobs => by
    obtain ⟨single, hsingle⟩ := job.exists_asks
    obtain ⟨singles, hsingles⟩ := exists_asks_all jobs
    exact ⟨single :: singles, .cons hsingle hsingles⟩

namespace Workspace

open FileSystem (AddsFolders)

/-- What is loaded of the manifest at a path. -/
def load (files : FileSystem) (path : Path) : Except Failure (List Job) :=
  ((loadManifest host path).run ⟨files, []⟩).1

/-- Single requests one after another, each on the files that the one before leaves, up to the first
    that fails. What they print follows one another. -/
def runEach : List Single → FileSystem → Except Failure Unit × Workspace
  | [], files => (.ok (), ⟨files, []⟩)
  | single :: singles, files =>
    match run (.single single) files with
    | (.error failure, w) => (.error failure, w)
    | (.ok (), w) =>
      let last := runEach singles w.files
      (last.1, ⟨last.2.files, w.printed ++ last.2.printed⟩)

theorem runEach_cons_error {single : Single} {files : FileSystem} {failure : Failure} {w : Workspace}
    (h : run (.single single) files = (.error failure, w)) (singles : List Single) :
    runEach (single :: singles) files = (.error failure, w) := by
  rw [runEach, h]

theorem runEach_cons_ok {single : Single} {files : FileSystem} {w : Workspace}
    (h : run (.single single) files = (.ok (), w)) (singles : List Single) :
    runEach (single :: singles) files = ((runEach singles w.files).1,
      ⟨(runEach singles w.files).2.files, w.printed ++ (runEach singles w.files).2.printed⟩) := by
  rw [runEach, h]

theorem run_of_acts (request : Request) {files after : FileSystem} {answer : Except Failure Unit}
    {text : Text} (h : Acts (Shading.run host request).run files answer after text) :
    run request files = (answer, ⟨after, text⟩) := h []

theorem acts_run_single (single : Single) (files : FileSystem) :
    Acts (runSingle host single).run files (run (.single single) files).1
      (run (.single single) files).2.files (run (.single single) files).2.printed := by
  obtain ⟨answer, after, text, hacts, _⟩ := acts_runSingle single files
  rw [run_of_acts (.single single) hacts]
  exact hacts

/-- A single request that fails prints nothing, and makes folders at most. -/
theorem of_run_single_error {single : Single} {files : FileSystem} {failure : Failure} {w : Workspace}
    (h : run (.single single) files = (.error failure, w)) :
    AddsFolders files w.files ∧ w.printed = [] := by
  obtain ⟨answer, after, text, hacts, herror⟩ := acts_runSingle single files
  cases (run_of_acts (.single single) hacts).symm.trans h
  exact herror failure rfl

/-! ### Loading -/

theorem acts_parseAt (path : Path) (s : Text) (files : FileSystem) :
    Acts (match Manifest.parseAt path s with
      | .ok jobs => pure jobs
      | .error problem => throw (.manifest problem) : ExceptT Failure (StateM Workspace) _).run
      files ((Manifest.parseAt path s).mapError .manifest) files [] := by
  cases Manifest.parseAt path s with
  | ok jobs => exact acts_pure _ files
  | error problem => exact acts_pure _ files

/-- Loading looks at the file and reads it. -/
theorem acts_loadManifest (path : Path) (files : FileSystem) :
    Acts (loadManifest host path).run files (load files path) files [] ∧
      load files path = ((readText files path).mapError (.io path)).bind fun s =>
        (Manifest.parseAt path s).mapError .manifest := by
  have hread := acts_readText path files
  obtain ⟨answer, hacts, hanswer⟩ : ∃ answer, Acts (loadManifest host path).run files answer files [] ∧
      answer = ((readText files path).mapError (.io path)).bind fun s =>
        (Manifest.parseAt path s).mapError .manifest := by
    cases hs : readText files path with
    | error cause =>
      rw [hs] at hread
      exact ⟨_, hread.bind_error, rfl⟩
    | ok s =>
      rw [hs] at hread
      exact ⟨_, hread.bind_ok (acts_parseAt path s files), rfl⟩
  have hload : load files path = answer := congrArg Prod.fst (hacts [])
  exact hload.symm ▸ ⟨hacts, hanswer⟩

/-- What loads is a text that is read as the jobs. -/
theorem load_eq_ok {files : FileSystem} {path : Path} {jobs : List Job} :
    load files path = .ok jobs ↔
      ∃ s, readText files path = .ok s ∧ Manifest.parseAt path s = .ok jobs := by
  rw [(acts_loadManifest path files).2]
  cases readText files path with
  | error cause => simp [Except.mapError, Except.bind]
  | ok s => cases hparse : Manifest.parseAt path s <;> simp [Except.mapError, Except.bind, hparse]

/-! ### Running -/

/-- Jobs in a row do what requests for them do in a row. -/
theorem acts_runJobs {singles : List Single} {jobs : List Job}
    (h : List.Forall₂ Single.Asks singles jobs) : ∀ files : FileSystem,
    Acts (runJobs host jobs).run files (runEach singles files).1 (runEach singles files).2.files
      (runEach singles files).2.printed := by
  induction h with
  | nil => exact fun files => acts_pure _ files
  | @cons single job singles jobs hasks _ ih =>
    intro files
    have hfirst := acts_run_single single files
    rw [hasks.runSingle_eq host] at hfirst
    rw [runEach]
    rcases hrun : run (.single single) files with ⟨failure | u, w⟩
    · rw [hrun] at hfirst
      exact hfirst.bind_error
    · rw [hrun] at hfirst
      exact hfirst.bind_ok (ih w.files)

/-- Where a row of requests stops: those in front are done, the next one fails, and behind it there are
    the files and the text that there were in front of it, with new folders at most. -/
def StopsWith (failure : Failure) (singles : List Single) (files : FileSystem) : Prop :=
  ∃ done single rest before after, singles = done ++ single :: rest ∧
    runEach done files = (Except.ok (), before) ∧
    run (.single single) before.files = (.error failure, ⟨after, []⟩) ∧
    runEach singles files = (.error failure, ⟨after, before.printed⟩) ∧
    AddsFolders before.files after

theorem stopsWith_of_error {failure : Failure} : ∀ {singles : List Single} {files : FileSystem},
    (runEach singles files).1 = .error failure → StopsWith failure singles files
  | [], _, h => by cases h
  | single :: singles, files, h => by
    rcases hrun : run (.single single) files with ⟨first | u, w⟩
    · -- the row stops here
      have hall := runEach_cons_error hrun singles
      rw [hall] at h
      cases h
      obtain ⟨hadds, hprinted⟩ := of_run_single_error hrun
      rw [show w = ⟨w.files, []⟩ by rw [← hprinted]] at hrun hall
      exact ⟨[], single, singles, ⟨files, []⟩, w.files, rfl, rfl, hrun, hall, hadds⟩
    · -- it stops further on, behind what this request prints
      rw [runEach_cons_ok hrun] at h
      obtain ⟨done, next, rest, before, after, rfl, hdone, hnext, hall, hadds⟩ := stopsWith_of_error h
      refine ⟨single :: done, next, rest, ⟨before.files, w.printed ++ before.printed⟩, after, rfl,
        ?_, hnext, ?_, hadds⟩
      · rw [runEach_cons_ok hrun, hdone]
      · rw [runEach_cons_ok hrun, hall]

/-- A manifest is loaded without a trace. When that fails, nothing else happens; otherwise its jobs can be
    asked for, and running it is asking for them in a row, up to the first failure. -/
theorem run_manifest (files : FileSystem) (path : Path) :
    (∀ failure, load files path = .error failure →
      run (.manifest path) files = (.error failure, ⟨files, []⟩)) ∧
    ∀ jobs, load files path = .ok jobs → (∃ singles, List.Forall₂ Single.Asks singles jobs) ∧
      ∀ singles, List.Forall₂ Single.Asks singles jobs →
        run (.manifest path) files = runEach singles files ∧
        ∀ failure, (runEach singles files).1 = .error failure →
          StopsWith failure singles files := by
  have hload := (acts_loadManifest path files).1
  constructor
  · intro failure herror
    rw [herror] at hload
    exact run_of_acts (.manifest path) hload.bind_error
  · intro jobs hjobs
    rw [hjobs] at hload
    refine ⟨exists_asks_all jobs, fun singles hasks =>
      ⟨?_, fun _ => stopsWith_of_error⟩⟩
    exact run_of_acts (.manifest path) (hload.bind_ok (acts_runJobs hasks files))

/-- A manifest of two jobs, one as an object and one as a list. -/
def twoJobs : Text :=
  ("[\x7b\"input\":\"a.vert\",\"stage\":\"vertex\",\"backend\":\"gles3\"," ++
    "\"defines\":[\"#define MULTIVIEW 1\"]\x7d,[\"b.vert\",null,\"vertex\",\"vulkan\"]]").toList

/-- A file system with the manifest and the shader of its first job, without that of its second. -/
def halfThere : FileSystem where
  entries := [(["m.json".toList], .file twoJobs.toBytes),
    (["a.vert".toList], .file (Text.toBytes "void main() \x7b\x7d".toList))]
  here := []

/-- Requests for the two jobs. -/
def twoRequests : List Single :=
  [⟨some (.file "a.vert".toList), .vertex, .gles3, ["#define MULTIVIEW 1".toList], none, none⟩,
   ⟨some (.file "b.vert".toList), .vertex, .vulkan, [], none, none⟩]

theorem run_manifest_halfThere :
    load halfThere "m.json".toList = .ok
      [⟨"a.vert".toList, none, .vertex, .gles3, { names := ["MULTIVIEW".toList] }⟩,
       ⟨"b.vert".toList, none, .vertex, .vulkan, .empty⟩] ∧
    run (.manifest "m.json".toList) halfThere = runEach twoRequests halfThere ∧
    StopsWith (.io "b.vert".toList .notFound) twoRequests halfThere := by
  have hread : readText halfThere "m.json".toList = .ok twoJobs := readText_of_read rfl
  have hparse : Manifest.parseAt "m.json".toList twoJobs = .ok
      [⟨"a.vert".toList, none, .vertex, .gles3, { names := ["MULTIVIEW".toList] }⟩,
       ⟨"b.vert".toList, none, .vertex, .vulkan, .empty⟩] := by decide +kernel
  have hload := load_eq_ok.mpr ⟨twoJobs, hread, hparse⟩
  have hfirst : DefineSet.ofEntries ["#define MULTIVIEW 1".toList] =
      { names := ["MULTIVIEW".toList] } := by decide
  obtain ⟨heach, hstops⟩ := ((run_manifest halfThere "m.json".toList).2 _ hload).2 twoRequests
    (.cons ⟨rfl, rfl, rfl, hfirst, rfl, rfl⟩ (.cons ⟨rfl, rfl, rfl, rfl, rfl, rfl⟩ .nil))
  have hfails : (runEach twoRequests halfThere).1 = .error (.io "b.vert".toList .notFound) := by
    decide +kernel
  exact ⟨hload, heach, hstops _ hfails⟩

end Workspace

end Shading
