import Mathlib.Data.List.Nodup
import Mathlib.Data.List.Perm.Basic
import Mathlib.Data.List.TakeWhile
import Shading.Proofs.WrittenManifest

/-!
    Spellings of a manifest.

    What a job means does not depend on how it is spelled (`Manifest.parse_spelledAs`). An object may hold
    its members in any order and any number of others with well-formed values; it need not say that
    there is no output or that nothing is defined (`Job.SaidBy`). A job may also be the list of its
    values, with or without an empty list of defines at the end. Strings may be escaped and blanks may
    stand wherever JSON allows them.

    Members are taken into a draft one by one (`Draft.take`), and two members for different fields can
    change places (`Draft.take_comm`), so only what is said counts, and not in which order. -/

namespace Shading

open Json

namespace Job

/-- What one member says of a job. -/
inductive Said where
  | input (path : Path)
  | output (path : Option Path)
  | stage (stage : Stage)
  | backend (backend : Backend)
  | defines (set : DefineSet)

namespace Said

def field : Said → Field
  | .input _ => .input
  | .output _ => .output
  | .stage _ => .stage
  | .backend _ => .backend
  | .defines _ => .defines

/-- The value of the member is spelled so. -/
def SpelledAs : Said → Text → Prop
  | .input path, t => QuotedAs path t
  | .output none, t => t = "null".toList
  | .output (some path), t => QuotedAs path t
  | .stage value, t => QuotedAs value.name.toList t
  | .backend value, t => QuotedAs value.name.toList t
  | .defines set, t => ∃ entries, DefineSet.ofEntries entries = set ∧ Bracketed QuotedAs entries t

end Said

/-- A member is spelled so: what it says of the job, or one that is passed over, whose key is that of no
    field. -/
def MemberSpelledAs (member : Option Said) (t : Text) : Prop :=
  ∃ key body w w' v, EscapedAs key body ∧ Blanks w ∧ Blanks w' ∧
    t = '"' :: (body ++ '"' :: (w ++ ':' :: (w' ++ v))) ∧
    match member with
    | some said => key = said.field.key.toList ∧ said.SpelledAs v
    | none => (∀ field : Field, key ≠ field.key.toList) ∧ WellFormed .value v

/-- An output is said, unless there is none. -/
def OutputSaid (job : Job) (saids : List Said) : Prop :=
  saids = [.output job.output] ∨ saids = [] ∧ job.output = none

/-- The defines are said, unless nothing is defined. -/
def DefinesSaid (job : Job) (saids : List Said) : Prop :=
  saids = [.defines job.defines] ∨ saids = [] ∧ job.defines = .empty

/-- The members say what the job is, in any order. -/
def SaidBy (job : Job) (saids : List Said) : Prop :=
  ∃ output defines, job.OutputSaid output ∧ job.DefinesSaid defines ∧
    saids.Perm ([.input job.input, .stage job.stage, .backend job.backend] ++ (output ++ defines))

/-- The job is spelled so, as an object or as a list. -/
inductive SpelledAs (job : Job) : Text → Prop
  | object {members : List (Option Said)} {t : Text} (hsaid : job.SaidBy (members.filterMap id))
      (h : Separated MemberSpelledAs members t) : SpelledAs job ('\x7b' :: (t ++ ['\x7d']))
  | list {defines : List Said} {t : Text} (hdefines : job.DefinesSaid defines)
      (h : Separated Said.SpelledAs ([.input job.input, .output job.output, .stage job.stage,
        .backend job.backend] ++ defines) t) : SpelledAs job ('[' :: (t ++ [']']))

/-! ### Values of fields -/

/-- The draft with one more field. -/
def Draft.take (d : Draft) : Said → Draft
  | .input path => { d with input := some path }
  | .output path => { d with output := some path }
  | .stage stage => { d with stage := some stage }
  | .backend backend => { d with backend := some backend }
  | .defines set => { d with defines := some set }

theorem Draft.has_take (d : Draft) (said : Said) (field : Field) :
    (d.take said).has field = (d.has field || field == said.field) := by
  cases said <;> cases field <;> simp [take, has, Said.field]

/-- Members for different fields can change places. -/
theorem Draft.take_comm (d : Draft) {said said' : Said} (h : said.field ≠ said'.field) :
    (d.take said).take said' = (d.take said').take said := by
  cases said <;> cases said' <;> first | rfl | exact absurd rfl h

theorem readsBack_stageAs {stage : Stage} {t : Text} (h : QuotedAs stage.name.toList t) :
    ReadsBack Stage.read t stage :=
  h.readsBack_choice (by cases stage <;> rfl)

theorem readsBack_backendAs {backend : Backend} {t : Text} (h : QuotedAs backend.name.toList t) :
    ReadsBack Backend.read t backend :=
  h.readsBack_choice (by cases backend <;> rfl)

theorem readsBack_definesAs {entries : List Text} {t : Text} (h : Bracketed QuotedAs entries t) :
    ReadsBack DefineSet.read t (.ofEntries entries) := by
  intro rest
  have hentry : ∀ entry t, QuotedAs entry t →
      ReadsBack (readString "a string") t entry ∧ BeginsValue t :=
    fun _ _ h => ⟨h.readsBack _, h.beginsValue⟩
  have hentries := h.readsBack hentry rest
  rw [DefineSet.read, hentries]
  rfl

theorem readsBack_outputAs {path : Option Path} {t : Text} (h : (Said.output path).SpelledAs t) :
    ReadsBack (readOptional readPath) t path := by
  cases path with
  | none =>
    obtain rfl : t = "null".toList := h
    exact readsBack_null readPath
  | some path => exact QuotedAs.readsBack_some h (QuotedAs.readsBack h "path string")

theorem Said.SpelledAs.beginsValue {said : Said} {t : Text} (h : said.SpelledAs t) :
    BeginsValue t := by
  cases said with
  | output path =>
    cases path with
    | none =>
      obtain rfl : t = "null".toList := h
      exact ⟨'n', _, rfl, by decide, by decide⟩
    | some path => exact QuotedAs.beginsValue h
  | defines set =>
    obtain ⟨entries, -, h⟩ := h
    exact h.beginsValue
  | _ => exact QuotedAs.beginsValue h

/-- The value of a field is read into the draft. -/
theorem Said.SpelledAs.readField {said : Said} {t : Text} (h : said.SpelledAs t) (d : Draft) :
    ReadsBack (readField d said.field) t (d.take said) := by
  intro rest
  cases said with
  | input path =>
    have hread := QuotedAs.readsBack h "path string" rest
    show (readPath (t ++ rest)).map _ = _
    rw [readPath, hread]
    rfl
  | output path =>
    show (readOptional readPath (t ++ rest)).map _ = _
    rw [readsBack_outputAs h rest]
    rfl
  | stage stage =>
    show (Stage.read (t ++ rest)).map _ = _
    rw [readsBack_stageAs h rest]
    rfl
  | backend backend =>
    show (Backend.read (t ++ rest)).map _ = _
    rw [readsBack_backendAs h rest]
    rfl
  | defines set =>
    obtain ⟨entries, rfl, h⟩ := h
    show (DefineSet.read (t ++ rest)).map _ = _
    rw [readsBack_definesAs h rest]
    rfl

theorem readField_blanks (d : Draft) (field : Field) {w : Text} (hw : Blanks w) (s : Text) :
    readField d field (w ++ s) = readField d field s := by
  cases field with
  | input => rw [readField, readPath, skipsBlanks_string _ w s hw, readField, readPath]
  | output => rw [readField, skipsBlanks_optional _ w s hw, readField]
  | stage => rw [readField, Stage.read, skipsBlanks_choice _ w s hw, readField, Stage.read]
  | backend => rw [readField, Backend.read, skipsBlanks_choice _ w s hw, readField, Backend.read]
  | defines => rw [readField, DefineSet.read, skipsBlanks_list _ w s hw, readField, DefineSet.read]

/-! ### Members -/

theorem ofKey?_eq_none {key : Text} (h : ∀ field : Field, key ≠ field.key.toList) :
    Field.ofKey? key = none := by
  rw [Field.ofKey?, List.find?_eq_none]
  intro field _ heq
  exact h field (beq_iff_eq.mp heq).symm

/-- Behind its first quote the member is read: what it says is taken into the draft, and any other member
    is passed over. -/
def ReadsMember (member : Option Said) (t : Text) : Prop :=
  ∀ (d : Draft) (rest : Text), (∀ said ∈ member, d.has said.field = false) → Delimits rest →
    readMember d (t ++ rest) = .ok (member.elim d d.take, rest)

theorem MemberSpelledAs.readsMember {member : Option Said} {t : Text} (h : MemberSpelledAs member t) :
    ∃ u, t = '"' :: u ∧ ReadsMember member u := by
  obtain ⟨key, body, w, w', v, hkey, hw, hw', rfl, hmember⟩ := h
  refine ⟨_, rfl, fun d rest hnew hrest => ?_⟩
  have hquoted := hkey.readQuoted (w ++ ':' :: (w' ++ (v ++ rest)))
  have hcolon := readColon_blanks hw (w' ++ (v ++ rest))
  simp only [List.append_assoc, List.cons_append, Job.readMember, hquoted, bind, Except.bind]
  cases member with
  | none =>
    rw [ofKey?_eq_none hmember.1]
    simp only [hcolon, hmember.2.skipValue hw' hrest]
    rfl
  | some said =>
    obtain ⟨rfl, hvalue⟩ := hmember
    have hhas : d.has said.field = false := hnew said rfl
    rw [ofKey?_key]
    simp only [hhas, hcolon, Bool.false_eq_true, if_false]
    rw [readField_blanks d said.field hw', hvalue.readField d rest]
    rfl

/-- The draft has none of the fields, and none is said twice. -/
def Draft.Takes : Draft → List Said → Prop
  | _, [] => True
  | d, said :: saids => d.has said.field = false ∧ (d.take said).Takes saids

theorem Draft.takes_of_nodup : ∀ {saids : List Said} {d : Draft}, (saids.map Said.field).Nodup →
    (∀ said ∈ saids, d.has said.field = false) → d.Takes saids
  | [], _, _, _ => trivial
  | said :: saids, d, hdistinct, hnew => by
    rw [List.map_cons, List.nodup_cons] at hdistinct
    rw [List.forall_mem_cons] at hnew
    refine ⟨hnew.1, Draft.takes_of_nodup hdistinct.2 fun said' hmem => ?_⟩
    have hne : said'.field ≠ said.field := fun heq => hdistinct.1 (heq ▸ List.mem_map_of_mem hmem)
    rw [Draft.has_take, hnew.2 said' hmem, Bool.false_or, beq_false_of_ne hne]

theorem nextMember_blanks {w : Text} (hw : Blanks w) (first : Bool) (s : Text) :
    nextMember first (w ++ s) = nextMember first s := by
  rw [nextMember, skipBlank_blanks hw, nextMember]

theorem nextMember_close {w : Text} (hw : Blanks w) (first : Bool) (rest : Text) :
    nextMember first (w ++ '\x7d' :: rest) = .ok (.close rest) :=
  (nextMember_blanks hw first _).trans rfl

/-- The first member, with blanks in front. -/
theorem nextMember_opened {w : Text} (hw : Blanks w) (rest : Text) :
    nextMember true (w ++ '"' :: rest) = .ok (.item rest) :=
  (nextMember_blanks hw true _).trans rfl

/-- A further member, with blanks on both sides of its comma. -/
theorem nextMember_behind {w w' : Text} (hw : Blanks w) (hw' : Blanks w') (rest : Text) :
    nextMember false (w ++ ',' :: (w' ++ '"' :: rest)) = .ok (.item rest) := by
  have hcomma : ∀ s, skipBlank (',' :: s) = ',' :: s := skipBlank_cons (by decide)
  have hquote : ∀ s, skipBlank ('"' :: s) = '"' :: s := skipBlank_cons (by decide)
  rw [nextMember_blanks hw, nextMember, hcomma]
  dsimp only
  rw [if_neg (by decide), if_neg (by decide), if_neg (by decide), skipBlank_blanks hw', hquote]
  rfl

/-- A value may end in front of what stands behind a member. -/
theorem delimits_behind {members : List (Option Said)} {u : Text}
    (hu : Behind MemberSpelledAs members u) (rest : Text) : Delimits (u ++ '\x7d' :: rest) := by
  cases hu with
  | nil hw => exact hw.delimits (Or.inr (Or.inr rfl)) rest
  | cons hw =>
    rw [List.append_assoc, List.cons_append]
    exact hw.delimits (Or.inl rfl) _

/-- One member is taken into the draft, and then the others. -/
theorem readMembers_member {member : Option Said} {members : List (Option Said)} {first : Bool}
    {bound : Nat} {d : Draft} {s t u rest : Text}
    (hnext : nextMember first s = .ok (.item (t ++ (u ++ '\x7d' :: rest))))
    (hread : ReadsMember member t) (hu : Behind MemberSpelledAs members u)
    (htakes : d.Takes ((member :: members).filterMap id))
    (hmore : ∀ d : Draft, d.Takes (members.filterMap id) →
      readMembers bound false d (u ++ '\x7d' :: rest) =
        .ok ((members.filterMap id).foldl Draft.take d, rest)) :
    readMembers (bound + 1) first d s =
      .ok (((member :: members).filterMap id).foldl Draft.take d, rest) := by
  rw [readMembers, hnext]
  dsimp only
  cases member with
  | none =>
    rw [hread d _ (fun _ h => by cases h) (delimits_behind hu rest)]
    exact hmore d htakes
  | some said =>
    have hnew : ∀ said' ∈ some said, d.has said'.field = false := by
      rintro _ ⟨⟩
      exact htakes.1
    rw [hread d _ hnew (delimits_behind hu rest)]
    exact hmore (d.take said) htakes.2

/-- Further members are taken into the draft one by one. -/
theorem readMembers_behind {members : List (Option Said)} {u : Text}
    (hu : Behind MemberSpelledAs members u) (rest : Text) : ∀ bound d, members.length < bound →
      d.Takes (members.filterMap id) →
        readMembers bound false d (u ++ '\x7d' :: rest) =
          .ok ((members.filterMap id).foldl Draft.take d, rest) := by
  induction hu with
  | nil hw =>
    intro bound d hbound _
    obtain ⟨bound, rfl⟩ := Nat.exists_eq_succ_of_ne_zero (Nat.ne_zero_of_lt hbound)
    rw [readMembers, nextMember_close hw]
    rfl
  | cons hw hw' h hu ih =>
    intro bound d hbound htakes
    obtain ⟨bound, rfl⟩ := Nat.exists_eq_succ_of_ne_zero (Nat.ne_zero_of_lt hbound)
    obtain ⟨t, rfl, hread⟩ := h.readsMember
    simp only [List.append_assoc, List.cons_append]
    exact readMembers_member (nextMember_behind hw hw' _) hread hu htakes fun d =>
      ih bound d (Nat.lt_of_succ_lt_succ hbound)

/-! ### Jobs -/

section

variable {job : Job}

/-- No field is said twice. -/
theorem SaidBy.fields_nodup {saids : List Said} (h : job.SaidBy saids) :
    (saids.map Said.field).Nodup := by
  obtain ⟨output, defines, houtput, hdefines, hperm⟩ := h
  rw [(hperm.map Said.field).nodup_iff]
  rcases houtput with rfl | ⟨rfl, -⟩ <;> rcases hdefines with rfl | ⟨rfl, -⟩ <;> simp [Said.field]

theorem SaidBy.takes {saids : List Said} (h : job.SaidBy saids) : Draft.empty.Takes saids :=
  Draft.takes_of_nodup h.fields_nodup fun said _ => by cases said <;> rfl

/-- In whatever order it is said, the draft in the end is that of the job. -/
theorem SaidBy.job_foldl {saids : List Said} (h : job.SaidBy saids) :
    (saids.foldl Draft.take .empty).job = .ok job := by
  have hdistinct := h.fields_nodup
  obtain ⟨output, defines, houtput, hdefines, hperm⟩ := h
  have hcomm : ∀ said ∈ saids, ∀ said' ∈ saids, ∀ d : Draft,
      (d.take said).take said' = (d.take said').take said := by
    intro said hmem said' hmem' d
    by_cases hfield : said.field = said'.field
    · rw [List.inj_on_of_nodup_map hdistinct hmem hmem' hfield]
    · exact d.take_comm hfield
  rw [hperm.foldl_eq' hcomm]
  obtain ⟨input, path, stage, backend, set⟩ := job
  rcases houtput with rfl | ⟨rfl, hnone⟩ <;> rcases hdefines with rfl | ⟨rfl, hempty⟩
  · rfl
  · obtain rfl : set = .empty := hempty
    rfl
  · obtain rfl : path = none := hnone
    rfl
  · obtain rfl : path = none := hnone
    obtain rfl : set = .empty := hempty
    rfl

theorem readsBack_objectAs {members : List (Option Said)} {t : Text}
    (hsaid : job.SaidBy (members.filterMap id)) (h : Separated MemberSpelledAs members t) :
    ReadsBack read ('\x7b' :: (t ++ ['\x7d'])) job := by
  intro rest
  have hopen : ∀ s : Text, read ('\x7b' :: s) =
      readMembers (s.length + 1) true .empty s >>= fun r =>
        r.1.job >>= fun job => return (job, r.2) := fun _ => rfl
  have hmembers : readMembers ((t ++ '\x7d' :: rest).length + 1) true .empty (t ++ '\x7d' :: rest) =
      .ok ((members.filterMap id).foldl Draft.take .empty, rest) := by
    obtain ⟨hw, h, hu⟩ := h
    have hlength := hu.length_le
    obtain ⟨t, rfl, hread⟩ := h.readsMember
    simp only [List.append_assoc, List.cons_append]
    refine readMembers_member (nextMember_opened hw _) hread hu hsaid.takes fun d =>
      readMembers_behind hu rest _ d ?_
    simp only [List.length_append, List.length_cons]
    omega
  rw [List.cons_append, List.append_assoc, List.singleton_append, hopen, hmembers]
  show (Draft.job _ >>= fun job => _) = _
  rw [hsaid.job_foldl]
  rfl

theorem readRequired_item (index : Nat) {item : Reader α} {a : α} {s t u : Text}
    (hnext : nextItem (index == 0) s = .ok (.item (t ++ u))) (hread : ReadsBack item t a) :
    readRequired index item s = .ok (a, u) := by
  rw [readRequired, hnext]
  exact hread u

/-- The first four items of a job that is a list are read, whatever stands behind them. -/
theorem readPositional_front {defines : List Said} {t : Text}
    (h : Separated Said.SpelledAs ([.input job.input, .output job.output, .stage job.stage,
      .backend job.backend] ++ defines) t) :
    ∃ u, Behind Said.SpelledAs defines u ∧ ∀ rest, readPositional (t ++ rest) =
      nextItem false (u ++ rest) >>= fun
        | .close rest => return (⟨job.input, job.output, job.stage, job.backend, .empty⟩, rest)
        | .item s => DefineSet.read s >>= fun r => readListEnd r.2 >>= fun rest =>
            return (⟨job.input, job.output, job.stage, job.backend, r.1⟩, rest) := by
  obtain ⟨hw₁, h₁, hu⟩ := h
  obtain _ | ⟨hw₁', hw₂, h₂, hu⟩ := hu
  obtain _ | ⟨hw₂', hw₃, h₃, hu⟩ := hu
  obtain _ | ⟨hw₃', hw₄, h₄, hu⟩ := hu
  refine ⟨_, hu, fun rest => ?_⟩
  have hinput : ReadsBack readPath _ job.input := QuotedAs.readsBack h₁ "path string"
  simp only [List.append_assoc, List.cons_append]
  rw [readPositional, readRequired_item 0 (nextItem_opened hw₁ h₁.beginsValue _) hinput]
  show (nextItem false _ >>= fun next => _) = _
  rw [nextItem_behind hw₁' hw₂ h₂.beginsValue]
  show (readOptional readPath _ >>= fun r => _) = _
  rw [readsBack_outputAs h₂]
  show (readRequired 2 Stage.read _ >>= fun r => _) = _
  rw [readRequired_item 2 (nextItem_behind hw₂' hw₃ h₃.beginsValue _) (readsBack_stageAs h₃)]
  show (readRequired 3 Backend.read _ >>= fun r => _) = _
  rw [readRequired_item 3 (nextItem_behind hw₃' hw₄ h₄.beginsValue _) (readsBack_backendAs h₄)]
  rfl

theorem readsBack_listAs {defines : List Said} {t : Text} (hdefines : job.DefinesSaid defines)
    (h : Separated Said.SpelledAs ([.input job.input, .output job.output, .stage job.stage,
      .backend job.backend] ++ defines) t) : ReadsBack read ('[' :: (t ++ [']'])) job := by
  intro rest
  have hopen : ∀ s : Text, read ('[' :: s) = readPositional s := fun _ => rfl
  obtain ⟨u, hu, hfront⟩ := readPositional_front h
  rw [List.cons_append, List.append_assoc, hopen, hfront, List.singleton_append]
  rcases hdefines with rfl | ⟨rfl, hempty⟩
  · obtain _ | ⟨hw, hw', ⟨entries, hentries, hset⟩, hend⟩ := hu
    obtain ⟨hend⟩ := hend
    simp only [List.append_assoc, List.cons_append]
    rw [nextItem_behind hw hw' hset.beginsValue]
    show (DefineSet.read _ >>= fun r => _) = _
    rw [readsBack_definesAs hset]
    show (readListEnd _ >>= fun rest => _) = _
    rw [readListEnd_blanks hend, hentries]
    rfl
  · obtain ⟨hend⟩ := hu
    rw [nextItem_close hend, ← hempty]
    rfl

/-- However a job is spelled, it is read. -/
theorem SpelledAs.readsBack {t : Text} (h : job.SpelledAs t) : ReadsBack read t job := by
  cases h with
  | object hsaid h => exact readsBack_objectAs hsaid h
  | list hdefines h => exact readsBack_listAs hdefines h

theorem SpelledAs.beginsValue {t : Text} (h : job.SpelledAs t) : BeginsValue t := by
  cases h with
  | object => exact ⟨'\x7b', _, rfl, by decide, by decide⟩
  | list => exact ⟨'[', _, rfl, by decide, by decide⟩

end

end Job

/-- The jobs are spelled so, as a list with blanks around it. -/
def Manifest.SpelledAs (jobs : List Job) (s : Text) : Prop :=
  ∃ w t w', Blanks w ∧ Blanks w' ∧ s = w ++ (t ++ w') ∧ Bracketed Job.SpelledAs jobs t

/-- Jobs are read from every spelling of them. -/
theorem Manifest.parse_spelledAs {jobs : List Job} {s : Text} (h : SpelledAs jobs s) :
    parse s = .ok jobs := by
  obtain ⟨w, t, w', hw, hw', rfl, ht⟩ := h
  have hjob : ∀ job t, Job.SpelledAs job t → ReadsBack Job.read t job ∧ BeginsValue t :=
    fun _ _ h => ⟨h.readsBack, h.beginsValue⟩
  have hbehind : skipBlank w' = [] := List.dropWhile_eq_nil_iff.mpr (List.all_eq_true.mp hw')
  rw [parse, readAll, skipsBlanks_list _ _ _ hw, ht.readsBack hjob]
  dsimp only
  rw [hbehind]
  rfl

/-- A job without an output and without defines. -/
def Manifest.bareJob : Job := ⟨"a".toList, none, .vertex, .metal, .empty⟩

/-- The job twice: as an object with an escaped key and a member that is passed over, and as a list. -/
def Manifest.twoForms : Text :=
  ("[\x7b\"backend\":\"metal\", \"\\u0073tage\" :\"vertex\",\"extra\":[\x7b\x7d]," ++
    "\"input\":\"a\"\x7d\n,[\"a\",null,\"vertex\",\"metal\",[]]]").toList

theorem Manifest.parse_spelledAs_forms :
    SpelledAs [bareJob, bareJob] twoForms ∧ parse twoForms = .ok [bareJob, bareJob] := by
  have hnone : Blanks [] := rfl
  have hspace : Blanks [' '] := rfl
  have hline : Blanks ['\n'] := rfl
  have hobject : bareJob.SpelledAs
      ("\x7b\"backend\":\"metal\", \"\\u0073tage\" :\"vertex\"," ++
        "\"extra\":[\x7b\x7d],\"input\":\"a\"\x7d").toList := by
    have hbackend : Job.MemberSpelledAs (some (.backend .metal)) "\"backend\":\"metal\"".toList :=
      ⟨_, _, [], [], _, escapedAs_flatMap "backend".toList, hnone, hnone, rfl, rfl, quotedAs_quote _⟩
    have hstage : Job.MemberSpelledAs (some (.stage .vertex))
        "\"\\u0073tage\" :\"vertex\"".toList := by
      have hcode : CodedAs 's'.toNat "0073".toList :=
        .digits (a := 0) (b := 0) (c := 7) (d := 3) rfl rfl rfl rfl
      have hkey : EscapedAs "stage".toList "\\u0073tage".toList :=
        .code hcode rfl rfl (escapedAs_flatMap "tage".toList)
      exact ⟨_, _, [' '], [], _, hkey, hspace, hnone, rfl, rfl, quotedAs_quote _⟩
    have hextra : Job.MemberSpelledAs none "\"extra\":[\x7b\x7d]".toList := by
      have hvalue : WellFormed .value "[\x7b\x7d]".toList :=
        .list (.item hnone (.emptyObject hnone) hnone)
      have hkey : ∀ field : Job.Field, "extra".toList ≠ field.key.toList := by
        intro field
        cases field <;> decide
      exact ⟨_, _, [], [], _, escapedAs_flatMap "extra".toList, hnone, hnone, rfl, hkey, hvalue⟩
    have hinput : Job.MemberSpelledAs (some (.input "a".toList)) "\"input\":\"a\"".toList :=
      ⟨_, _, [], [], _, escapedAs_flatMap "input".toList, hnone, hnone, rfl, rfl, quotedAs_quote _⟩
    have hmembers : Separated Job.MemberSpelledAs
        [some (.backend .metal), some (.stage .vertex), none, some (.input "a".toList)]
        ("\"backend\":\"metal\", \"\\u0073tage\" :\"vertex\"," ++
          "\"extra\":[\x7b\x7d],\"input\":\"a\"").toList :=
      .cons hnone hbackend (.cons hnone hspace hstage (.cons hnone hnone hextra
        (.cons hnone hnone hinput (.nil hnone))))
    have hsaid : bareJob.SaidBy [.backend .metal, .stage .vertex, .input "a".toList] :=
      ⟨[], [], .inr ⟨rfl, rfl⟩, .inr ⟨rfl, rfl⟩,
        List.reverse_perm [Job.Said.input "a".toList, .stage .vertex, .backend .metal]⟩
    exact .object hsaid hmembers
  have hlist : bareJob.SpelledAs "[\"a\",null,\"vertex\",\"metal\",[]]".toList := by
    have hinput : (Job.Said.input "a".toList).SpelledAs "\"a\"".toList := quotedAs_quote "a".toList
    have houtput : (Job.Said.output none).SpelledAs "null".toList := rfl
    have hstage : (Job.Said.stage .vertex).SpelledAs "\"vertex\"".toList := quotedAs_quote _
    have hbackend : (Job.Said.backend .metal).SpelledAs "\"metal\"".toList := quotedAs_quote _
    have hdefines : (Job.Said.defines .empty).SpelledAs "[]".toList := ⟨[], rfl, .empty hnone⟩
    have hsaid : bareJob.DefinesSaid [.defines .empty] := .inl rfl
    exact .list hsaid (.cons hnone hinput (.cons hnone hnone houtput (.cons hnone hnone hstage
      (.cons hnone hnone hbackend (.cons hnone hnone hdefines (.nil hnone))))))
  have hjobs : Bracketed Job.SpelledAs [bareJob, bareJob] _ :=
    .items (.cons hnone hobject (.cons hline hnone hlist (.nil hnone)))
  have hforms : SpelledAs [bareJob, bareJob] twoForms := ⟨[], _, [], hnone, hnone, rfl, hjobs⟩
  exact ⟨hforms, parse_spelledAs hforms⟩

end Shading
