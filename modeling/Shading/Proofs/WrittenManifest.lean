import Shading.Manifest
import Shading.Proofs.DefineRuns
import Shading.Proofs.WrittenJson

/-!
    Reading back a written manifest.

    A manifest is written as a list of objects, each with the fields of a job in order and without an
    output that is absent. Reading fills a draft field by field; that a field is read back from the text
    of its value into the draft that is wanted next (`Job.Fills`) carries over to the whole object
    (`readsBack_object`), and from jobs to the list of them (`parse_render`). Names of a define set come
    back as entries, so the set has to be one whose names are stored as they are (`DefineSet.Stored`). -/

namespace Shading

open Json

/-- Inserting a name of the set stores it unchanged. -/
def DefineSet.Stored (set : DefineSet) : Prop :=
  ∀ name ∈ set.names, (empty.insert name).names = [name]

/-! ### Fields -/

theorem DefineSet.symbolOf?_of_insert {name : Text} (h : (empty.insert name).names = [name]) :
    symbolOf? name = some name := by
  rcases insert_cases empty name with ⟨symbol, hsymbol, -, -, hinsert⟩ | ⟨-, -, hinsert⟩
  · rw [hinsert] at h
    obtain rfl : symbol = name := List.singleton_inj.mp h
    exact hsymbol
  · rw [hinsert] at h
    cases h

theorem DefineSet.Stored.ofEntries_names {set : DefineSet} (h : set.Stored) :
    ofEntries set.names = set := by
  have hnames : ∀ name ∈ set.names, symbolOf? name = some name := fun name hname =>
    symbolOf?_of_insert (h name hname)
  simpa using ofEntries_map id hnames

theorem compactItems_eq_map : ∀ items : List Value, compactItems items = items.map Value.compact
  | [] => rfl
  | item :: items => by rw [compactItems, compactItems_eq_map items, List.map_cons]

theorem readsBack_stage (stage : Stage) :
    ReadsBack Stage.read stage.toJson.compact stage := by
  rw [Stage.toJson, Value.compact]
  exact readsBack_choice (by cases stage <;> rfl)

theorem readsBack_backend (backend : Backend) :
    ReadsBack Backend.read backend.toJson.compact backend := by
  rw [Backend.toJson, Value.compact]
  exact readsBack_choice (by cases backend <;> rfl)

/-- What is read of a written define set is the set of its names as entries. -/
theorem read_defines (set : DefineSet) (rest : Text) :
    DefineSet.read (set.toJson.compact ++ rest) = .ok (.ofEntries set.names, rest) := by
  have hnames := readsBack_list (readString "a string") quote set.names
    fun name _ => ⟨readsBack_string "a string" name, beginsValue_quote name⟩
  have hquotes : Value.compact ∘ Value.string = quote := by
    funext s
    rw [Function.comp_apply, Value.compact]
  rw [DefineSet.toJson, Value.compact, compactItems_eq_map, List.map_map, hquotes, DefineSet.read,
    hnames rest, Except.map]

theorem readsBack_defines {set : DefineSet} (h : set.Stored) :
    ReadsBack DefineSet.read set.toJson.compact set := by
  intro rest
  rw [read_defines, h.ofEntries_names]

/-! ### Objects -/

namespace Job

/-- The fields can be read from the texts of their values, one after another and each for the first time,
    and turn the first draft into the second. -/
inductive Fills : Draft → List (Field × Value) → Draft → Prop
  | nil (d : Draft) : Fills d [] d
  | cons {d d' d'' : Draft} {field : Field} {value : Value} {members : List (Field × Value)}
      (hnew : d.has field = false) (hread : ReadsBack (readField d field) value.compact d')
      (h : Fills d' members d'') : Fills d ((field, value) :: members) d''

/-- The text of a member. -/
def memberText (member : Field × Value) : Text :=
  quote member.1.key.toList ++ ':' :: member.2.compact

theorem compactMembers_eq_map : ∀ members : List (Field × Value),
    compactMembers (members.map fun member => (member.1.key, member.2)) = members.map memberText
  | [] => rfl
  | member :: members => by
    rw [List.map_cons, compactMembers, compactMembers_eq_map members, List.map_cons, memberText]

theorem ofKey?_key (field : Field) : Field.ofKey? field.key.toList = some field := by
  cases field <;> decide

/-- A member is read behind the quote that opens its key. -/
theorem readMember_escaped {d d' : Draft} {field : Field} {value : Value}
    (hnew : d.has field = false) (hread : ReadsBack (readField d field) value.compact d')
    (rest : Text) :
    readMember d (field.key.toList.flatMap escapeChar ++ '"' :: ':' :: (value.compact ++ rest)) =
      .ok (d', rest) := by
  have hcolon : readColon (':' :: (value.compact ++ rest)) = .ok (value.compact ++ rest) := rfl
  simp only [readMember, readQuoted_flatMap, bind, Except.bind, ofKey?_key, hnew, hcolon,
    Bool.false_eq_true, if_false]
  exact hread rest

theorem nextMember_comma (rest : Text) :
    nextMember false (',' :: '"' :: rest) = .ok (.item rest) := rfl

/-- Further members, each behind a comma. -/
theorem readMembers_comma (rest : Text) {d d' : Draft} {members : List (Field × Value)}
    (h : Fills d members d') : ∀ bound, members.length < bound →
      readMembers bound false d ((members.map memberText).flatMap (',' :: ·) ++ '\x7d' :: rest) =
        .ok (d', rest) := by
  induction h with
  | nil d =>
    intro bound hbound
    cases bound with
    | zero => exact absurd hbound (Nat.not_lt_zero _)
    | succ bound =>
      rw [readMembers]
      rfl
  | @cons d d' d'' field value members hnew hread h ih =>
    intro bound hbound
    cases bound with
    | zero => exact absurd hbound (Nat.not_lt_zero _)
    | succ bound =>
      have hcut : (((field, value) :: members).map memberText).flatMap (',' :: ·) ++ '\x7d' :: rest =
          ',' :: '"' :: (field.key.toList.flatMap escapeChar ++ '"' :: ':' :: (value.compact ++
            ((members.map memberText).flatMap (',' :: ·) ++ '\x7d' :: rest))) := by
        simp [memberText, quote]
      rw [hcut, readMembers, nextMember_comma]
      dsimp only
      rw [readMember_escaped hnew hread]
      exact ih bound (Nat.lt_of_succ_lt_succ hbound)

/-- The members of an object, the first one without a comma. -/
theorem readMembers_first (rest : Text) {d d' : Draft} {members : List (Field × Value)}
    (h : Fills d members d') {bound : Nat} (hbound : members.length < bound) :
    readMembers bound true d (commaSeparated (members.map memberText) ++ '\x7d' :: rest) =
      .ok (d', rest) := by
  obtain ⟨bound, rfl⟩ := Nat.exists_eq_succ_of_ne_zero (Nat.ne_zero_of_lt hbound)
  cases h with
  | nil d =>
    rw [readMembers]
    rfl
  | @cons d d' d'' field value members hnew hread h =>
    have hcut : commaSeparated (((field, value) :: members).map memberText) ++ '\x7d' :: rest =
        '"' :: (field.key.toList.flatMap escapeChar ++ '"' :: ':' :: (value.compact ++
          ((members.map memberText).flatMap (',' :: ·) ++ '\x7d' :: rest))) := by
      rw [List.map_cons, commaSeparated_cons]
      simp [memberText, quote]
    have hfirst : ∀ s, nextMember true ('"' :: s) = .ok (.item s) := fun _ => rfl
    rw [hcut, readMembers, hfirst]
    dsimp only
    rw [readMember_escaped hnew hread]
    exact readMembers_comma rest h bound (Nat.lt_of_succ_lt_succ hbound)

/-- An object is read back into the job of the draft that its members leave. -/
theorem readsBack_object {members : List (Field × Value)} {d : Draft} {job : Job}
    (h : Fills .empty members d) (hjob : d.job = .ok job) :
    ReadsBack read
      (Value.object (members.map fun member => (member.1.key, member.2))).compact job := by
  intro rest
  have hopen : ∀ s : Text, read ('\x7b' :: s) =
      readMembers (s.length + 1) true .empty s >>= fun r =>
        r.1.job >>= fun job => return (job, r.2) := fun _ => rfl
  have hbound : members.length <
      (commaSeparated (members.map memberText) ++ '\x7d' :: rest).length + 1 := by
    have hmembers := length_le_commaSeparated (members.map memberText)
    rw [List.length_map] at hmembers
    rw [List.length_append, List.length_cons]
    omega
  rw [Value.compact, compactMembers_eq_map, List.append_assoc, List.singleton_append,
    List.cons_append, hopen, readMembers_first rest h hbound]
  show (d.job >>= fun job => _) = _
  rw [hjob]
  rfl

/-- The fields of a job with their values, an absent output left out. -/
def members (job : Job) : List (Field × Value) :=
  (Field.input, .string job.input) ::
    (match job.output with
      | some path => [(Field.output, Value.string path)]
      | none => []) ++
    [(.stage, job.stage.toJson), (.backend, job.backend.toJson), (.defines, job.defines.toJson)]

theorem toJson_eq_object (job : Job) :
    job.toJson = .object (job.members.map fun member => (member.1.key, member.2)) := by
  obtain ⟨input, _ | path, stage, backend, defines⟩ := job <;> rfl

/-- The draft behind the members of a job. -/
def draft (job : Job) : Draft :=
  ⟨some job.input, job.output.map some, some job.stage, some job.backend, some job.defines⟩

theorem job_draft (job : Job) : job.draft.job = .ok job := by
  obtain ⟨input, _ | path, stage, backend, defines⟩ := job <;> rfl

theorem readsBack_path (path : Path) : ReadsBack readPath (Value.string path).compact path := by
  rw [Value.compact]
  exact readsBack_string "path string" path

/-- A field is read back into the draft if its value is. -/
theorem readsBack_map {read : Reader α} {text : Text} {a : α} (h : ReadsBack read text a)
    (fill : α → Draft) :
    ReadsBack (fun s => (read s).map fun (a, rest) => (fill a, rest)) text (fill a) := by
  intro rest
  dsimp only
  rw [h rest]
  rfl

theorem fills_members {job : Job} (h : job.defines.Stored) : Fills .empty job.members job.draft := by
  have hinput : ∀ d, ReadsBack (readField d .input) (Value.string job.input).compact
      { d with input := some job.input } := fun d =>
    readsBack_map (readsBack_path job.input) fun a => { d with input := some a }
  have houtput : ∀ d path, ReadsBack (readField d .output) (Value.string path).compact
      { d with output := some (some path) } := by
    intro d path
    have hvalue := readsBack_path path
    rw [Value.compact] at hvalue ⊢
    exact readsBack_map (readsBack_some hvalue) fun a => { d with output := some a }
  have hstage : ∀ d, ReadsBack (readField d .stage) job.stage.toJson.compact
      { d with stage := some job.stage } := fun d =>
    readsBack_map (readsBack_stage job.stage) fun a => { d with stage := some a }
  have hbackend : ∀ d, ReadsBack (readField d .backend) job.backend.toJson.compact
      { d with backend := some job.backend } := fun d =>
    readsBack_map (readsBack_backend job.backend) fun a => { d with backend := some a }
  have hdefines : ∀ d, ReadsBack (readField d .defines) job.defines.toJson.compact
      { d with defines := some job.defines } := fun d =>
    readsBack_map (readsBack_defines h) fun a => { d with defines := some a }
  have hback : ∀ output, Fills ⟨some job.input, output, none, none, none⟩
      [(.stage, job.stage.toJson), (.backend, job.backend.toJson), (.defines, job.defines.toJson)]
      ⟨some job.input, output, some job.stage, some job.backend, some job.defines⟩ := fun output =>
    .cons rfl (hstage _) (.cons rfl (hbackend _) (.cons rfl (hdefines _) (.nil _)))
  refine .cons rfl (hinput _) ?_
  rw [draft]
  cases job.output with
  | none => exact hback none
  | some path => exact .cons rfl (houtput _ path) (hback (some (some path)))

/-- A job is read back from its text. -/
theorem readsBack {job : Job} (h : job.defines.Stored) : ReadsBack read job.toJson.compact job := by
  rw [toJson_eq_object]
  exact readsBack_object (fills_members h) job.job_draft

theorem beginsValue (job : Job) : BeginsValue job.toJson.compact := by
  rw [toJson, Value.compact]
  exact ⟨'\x7b', _, rfl, by decide, by decide⟩

end Job

/-- A manifest that is written is read back: the jobs come back in order, each with its paths, its names
    in order, and an output exactly if it had one. -/
theorem Manifest.parse_render {jobs : List Job} (h : ∀ job ∈ jobs, job.defines.Stored) :
    parse (render jobs) = .ok jobs := by
  have hjobs := readsBack_list Job.read (fun job => job.toJson.compact) jobs
    (fun job hjob => ⟨Job.readsBack (h job hjob), job.beginsValue⟩) []
  have hcompact : render jobs =
      '[' :: commaSeparated (jobs.map fun job => job.toJson.compact) ++ [']'] := by
    rw [render, Value.compact, compactItems_eq_map, List.map_map]
    rfl
  rw [List.append_nil, ← hcompact] at hjobs
  rw [parse, readAll, hjobs]
  rfl

/-- A job without an output, whose input has characters that are escaped and one that is not. -/
def Job.escaped : Job := ⟨"\"\n\x01é".toList, none, .vertex, .metal, { names := ["N#".toList] }⟩

/-- A job with an output and two defines. -/
def Job.delivered : Job :=
  ⟨"b.frag".toList, some "out/b".toList, .fragment, .vulkan, { names := ["B".toList, "A".toList] }⟩

/-- The text of the two jobs. -/
def Manifest.escapedDelivered : Text :=
  ("[\x7b\"input\":\"\\\"\\n\\u0001é\",\"stage\":\"vertex\",\"backend\":\"metal\"," ++
    "\"defines\":[\"N#\"]\x7d,\x7b\"input\":\"b.frag\",\"output\":\"out/b\"," ++
    "\"stage\":\"fragment\",\"backend\":\"vulkan\",\"defines\":[\"B\",\"A\"]\x7d]").toList

theorem Manifest.parse_render_escapes :
    (∀ job ∈ [Job.escaped, Job.delivered], job.defines.Stored) ∧
      parse escapedDelivered = .ok [Job.escaped, Job.delivered] := by
  have h : ∀ job ∈ [Job.escaped, Job.delivered], job.defines.Stored := by
    unfold DefineSet.Stored
    decide
  have hrender : render [Job.escaped, Job.delivered] = escapedDelivered := by decide +kernel
  exact ⟨h, (congrArg parse hrender).symm.trans (parse_render h)⟩

end Shading
