import Mathlib.Data.List.DropRight
import Shading.Proofs.ManifestRuns

/-!
    Where the paths of a manifest lead.

    A path leads where its names say, one behind the other, from the root or from the working folder;
    idle names do not count, and `..` is a name as others are (`Path.resolve`). Joining two paths as texts
    resolves the second from where the first leads, and the parent of a path leads to where all its names
    but the last lead. So what a manifest at a path lists is loaded with paths that lead from the working
    folder to where the listed ones lead from the folder that the manifest is in (`loaded_beside`). A walk
    in which `..` goes up agrees: a loaded path means to the file system what the listed one means from
    that folder (`locate_join`). -/

namespace Shading

namespace Path

/-- The names of a path that are not idle. -/
def names (p : Path) : List Text := p.segments.filter (!isIdle ·)

/-- The names behind one another that a path leads to, from a folder. -/
def resolve (here : List Text) (p : Path) : List Text :=
  (if p.isAbsolute then [] else here) ++ p.names

/-- The path `q` is what `r` becomes that is meant from the folder of the file at `p`. -/
structure Beside (p r q : Path) : Prop where
  absolute : r.isAbsolute = true → q = r
  /-- From any working folder, `q` leads to where `r` leads from the folder that the file is in. -/
  resolve : ∀ here, ∃ folder name, p.resolve here = folder ++ [name] ∧ name ≠ ['.', '.'] ∧
    q.resolve here = r.resolve folder

/-! ### Names -/

theorem segments_append_slash (p q : Path) :
    segments (p ++ '/' :: q) = segments p ++ segments q := by
  induction p with
  | nil => simp [segments]
  | cons c p ih =>
    rw [List.cons_append, segments, segments, ih]
    split
    · rfl
    · cases hp : segments p with
      | nil => exact absurd hp (segments_ne_nil p)
      | cons name rest => rfl

theorem segments_of_not_mem {name : Text} (h : '/' ∉ name) : segments name = [name] := by
  induction name with
  | nil => rfl
  | cons c name ih =>
    rw [List.mem_cons, not_or] at h
    rw [segments, if_neg (Ne.symm h.1), ih h.2]

theorem slash_not_mem_of_mem_segments {p : Path} : ∀ name ∈ p.segments, '/' ∉ name := by
  induction p with
  | nil => simp [segments]
  | cons c p ih =>
    rw [segments]
    split
    · simpa using ih
    · next hc =>
      cases hp : segments p with
      | nil => simpa using Ne.symm hc
      | cons name rest => simpa [hp, Ne.symm hc] using ih

theorem names_append_slash (p q : Path) : names (p ++ '/' :: q) = names p ++ names q := by
  rw [names, segments_append_slash, List.filter_append]
  rfl

theorem names_cons_slash (p : Path) : names ('/' :: p) = names p := names_append_slash [] p

theorem ofSegments_cons (name : Text) {rest : List Text} (h : rest ≠ []) :
    ofSegments (name :: rest) = name ++ '/' :: ofSegments rest := by
  obtain ⟨other, rest, rfl⟩ := List.exists_cons_of_ne_nil h
  rfl

theorem names_ofSegments {segments : List Text} (h : ∀ name ∈ segments, '/' ∉ name) :
    names (ofSegments segments) = segments.filter (!isIdle ·) := by
  induction segments with
  | nil => rfl
  | cons name rest ih =>
    obtain ⟨hname, hrest⟩ := List.forall_mem_cons.mp h
    have hnames : names name = [name].filter (!isIdle ·) := by rw [names, segments_of_not_mem hname]
    by_cases hnil : rest = []
    · exact hnil ▸ hnames
    · rw [ofSegments_cons name hnil, names_append_slash, hnames, ih hrest, ← List.filter_append]
      rfl

theorem names_eq (p : Path) : names p = (p.segments.filter (!·.isEmpty)).filter (!isIdle ·) := by
  rw [names, List.filter_filter]
  congr 1
  funext name
  simp +contextual [isIdle]

theorem names_of_filter {p : Path} {before : List Text} {name : Text}
    (h : p.segments.filter (!·.isEmpty) = before ++ [name]) (hdot : name ≠ ['.']) :
    p.names = before.filter (!isIdle ·) ++ [name] := by
  have hmem : name ∈ p.segments.filter (!·.isEmpty) := by simp [h]
  have hidle : isIdle name = false := by simpa [isIdle, hdot] using (List.mem_filter.mp hmem).2
  rw [names_eq, h, List.filter_append, List.filter_singleton, hidle]
  rfl

/-- A relative path that is not empty begins with a name. -/
theorem exists_filter_segments {p : Path} (hp : p ≠ []) (h : p.isAbsolute = false) :
    ∃ before name, p.segments.filter (!·.isEmpty) = before ++ [name] := by
  obtain ⟨c, s, rfl⟩ := List.exists_cons_of_ne_nil hp
  have hc : c ≠ '/' := by simpa [isAbsolute] using h
  have hne : (segments (c :: s)).filter (!·.isEmpty) ≠ [] := by
    rw [segments, if_neg hc]
    split <;> simp
  obtain hnil | ⟨before, name, hall⟩ := List.eq_nil_or_concat' ((segments (c :: s)).filter (!·.isEmpty))
  · exact absurd hnil hne
  · exact ⟨before, name, hall⟩

/-! ### Joining -/

theorem join_of_isAbsolute (base : Path) {p : Path} (h : p.isAbsolute = true) : join base p = p := by
  simp [join, h]

theorem isAbsolute_append {base : Path} (h : base ≠ []) (p : Path) :
    isAbsolute (base ++ p) = isAbsolute base := by
  obtain ⟨c, base, rfl⟩ := List.exists_cons_of_ne_nil h
  rfl

section

variable {p : Path} (hp : p.isAbsolute = false)
include hp

/-- A relative path is joined by writing it behind the other, with a slash between them if they need
    one. -/
theorem join_cases (base : Path) :
    base = [] ∧ join base p = p ∨
    (∃ front, base = front ++ ['/'] ∧ join base p = front ++ '/' :: p) ∨
    base ≠ [] ∧ join base p = base ++ '/' :: p := by
  by_cases hbase : base = []
  · exact .inl ⟨hbase, by simp [join, hp, hbase]⟩
  by_cases hslash : base.endsWithSlash = true
  · obtain ⟨front, rfl⟩ : ∃ front, base = front ++ ['/'] :=
      List.getLast?_eq_some_iff.mp (by simpa [endsWithSlash] using hslash)
    exact .inr (.inl ⟨front, rfl, by simp [join, hp, hslash]⟩)
  · exact .inr (.inr ⟨hbase, by simp [join, hp, hbase, hslash]⟩)

/-- What joining writes in front of a path is the other, and a slash at most. -/
theorem exists_join_eq_append (base : Path) :
    ∃ front, join base p = front ++ p ∧ ∀ c ∈ front, c ∈ base ∨ c = '/' := by
  rcases join_cases hp base with ⟨-, hjoin⟩ | ⟨front, rfl, hjoin⟩ | ⟨-, hjoin⟩
  · exact ⟨[], hjoin, by simp⟩
  · exact ⟨front ++ ['/'], by simp [hjoin], fun c hc => .inl hc⟩
  · exact ⟨base ++ ['/'], by simp [hjoin], fun c hc => by simpa using hc⟩

theorem isAbsolute_join (base : Path) : isAbsolute (join base p) = isAbsolute base := by
  rcases join_cases hp base with ⟨rfl, hjoin⟩ | ⟨front, rfl, hjoin⟩ | ⟨hbase, hjoin⟩
  · rw [hjoin, hp]
    rfl
  · rw [hjoin, ← List.singleton_append, ← List.append_assoc, isAbsolute_append (by simp)]
  · rw [hjoin, isAbsolute_append hbase]

/-- Joining adds no name but empty ones. -/
theorem filter_segments_join (base : Path) {keep : Text → Bool} (hkeep : keep [] = false) :
    (segments (join base p)).filter keep =
      (segments base).filter keep ++ (segments p).filter keep := by
  rcases join_cases hp base with ⟨rfl, hjoin⟩ | ⟨front, rfl, hjoin⟩ | ⟨-, hjoin⟩
  · simp [hjoin, segments, hkeep]
  · simp [hjoin, segments_append_slash, segments, hkeep]
  · simp [hjoin, segments_append_slash]

theorem names_join (base : Path) : names (join base p) = names base ++ names p :=
  filter_segments_join hp base rfl

end

/-- What is joined to a path is resolved from where the path leads. -/
theorem resolve_join (here : List Text) (base p : Path) :
    (join base p).resolve here = p.resolve (base.resolve here) := by
  cases hp : p.isAbsolute with
  | true => simp [join_of_isAbsolute base hp, resolve, hp]
  | false => simp [resolve, isAbsolute_join hp, names_join hp, hp]

/-! ### The parent -/

theorem ofSegments_mono {front all : List Text} (h : front <+: all) :
    ofSegments front <+: ofSegments all := by
  induction front generalizing all with
  | nil => exact List.nil_prefix
  | cons name front ih =>
    obtain ⟨back, rfl⟩ := h
    have hrest : ofSegments front <+: ofSegments (front ++ back) := ih (List.prefix_append front back)
    by_cases hnil : front = []
    · subst hnil
      by_cases hback : back = []
      · subst hback
        exact List.prefix_rfl
      · exact ofSegments_cons name hback ▸ List.prefix_append _ _
    · rw [List.cons_append, ofSegments_cons name hnil, ofSegments_cons name (by simp [hnil])]
      exact (List.prefix_append_right_inj name).mpr ((List.prefix_cons_inj _).mpr hrest)

/-- The beginning that a path keeps adds no name to a beginning of what follows, and makes it absolute
    as the path is. -/
theorem of_lead {p front : Path} (h : front <+: p.lead.2) :
    names (p.lead.1 ++ front) = names front ∧ isAbsolute (p.lead.1 ++ front) = p.isAbsolute := by
  unfold lead at h ⊢
  split at h
  · exact ⟨names_cons_slash front, rfl⟩
  · rw [List.prefix_nil.mp h]
    decide
  · cases front with
    | nil => exact ⟨rfl, rfl⟩
    | cons c front =>
      obtain ⟨rfl, -⟩ := List.cons_prefix_cons.mp h
      exact ⟨(names_append_slash ['.'] front).trans (names_cons_slash front).symm, rfl⟩
  · next hroot _ _ =>
    refine ⟨rfl, ?_⟩
    cases front with
    | cons c front =>
      obtain ⟨back, rfl⟩ := h
      rfl
    | nil =>
      cases p with
      | nil => rfl
      | cons c p =>
        have hc : c ≠ '/' := fun hc => hroot p (by rw [hc])
        simp [isAbsolute, hc]

theorem lead_append (p : Path) : p.lead.1 ++ p.lead.2 = p := by
  unfold lead
  split <;> rfl

theorem dropIdleEnd_eq (names : List Text) : dropIdleEnd names = names.rdropWhile isIdle := rfl

theorem isPrefix_dropIdleEnd (names : List Text) : dropIdleEnd names <+: names :=
  List.rdropWhile_prefix isIdle names

/-- What is cut off at the end is idle. -/
theorem filter_dropIdleEnd (names : List Text) :
    (dropIdleEnd names).filter (!isIdle ·) = names.filter (!isIdle ·) := by
  induction names using List.reverseRecOn with
  | nil => rfl
  | append_singleton names name ih =>
    rw [dropIdleEnd_eq, List.rdropWhile_concat]
    split
    · next hidle => simp [← dropIdleEnd_eq, ih, hidle]
    · rfl

theorem isIdle_of_dropIdleEnd {names front : List Text} {last : Text}
    (h : dropIdleEnd names = front ++ [last]) : isIdle last = false := by
  have hne : names.rdropWhile isIdle ≠ [] := by simp [← dropIdleEnd_eq, h]
  simpa [← dropIdleEnd_eq, h] using List.rdropWhile_last_not isIdle names hne

/-- A path with a last name has a parent, which begins where the path does and has the names in front. -/
theorem names_folder {p : Path} {before : List Text} {name : Text} (h : p.names = before ++ [name]) :
    names (Manifest.folder p) = before ∧ isAbsolute (Manifest.folder p) = p.isAbsolute ∧
      Manifest.folder p <+: p := by
  have hkept : (dropIdleEnd (segments p.lead.2)).filter (!isIdle ·) = before ++ [name] := by
    rw [filter_dropIdleEnd, ← h]
    change names p.lead.2 = names p
    rw [← (of_lead List.prefix_rfl).1, lead_append]
  obtain hnil | ⟨front, last, hsplit⟩ := List.eq_nil_or_concat' (dropIdleEnd (segments p.lead.2))
  · simp [hnil] at hkept
  have hfolder : Manifest.folder p = p.lead.1 ++ ofSegments (dropIdleEnd front) := by
    simp [Manifest.folder, parent?, hsplit]
  have hbefore : front.filter (!isIdle ·) = before := by
    rw [hsplit, List.filter_append, List.filter_singleton, isIdle_of_dropIdleEnd hsplit] at hkept
    exact (List.append_inj' hkept rfl).1
  -- what the parent keeps of the names is a beginning of the path
  have hbegins : dropIdleEnd front <+: segments p.lead.2 :=
    ((isPrefix_dropIdleEnd front).trans (hsplit ▸ List.prefix_append front [last])).trans
      (isPrefix_dropIdleEnd _)
  have hlead : ofSegments (dropIdleEnd front) <+: p.lead.2 :=
    ofSegments_segments p.lead.2 ▸ ofSegments_mono hbegins
  rw [hfolder, (of_lead hlead).1, (of_lead hlead).2, names_ofSegments, filter_dropIdleEnd, hbefore]
  · refine ⟨rfl, rfl, ?_⟩
    calc p.lead.1 ++ ofSegments (dropIdleEnd front) <+: p.lead.1 ++ p.lead.2 :=
          (List.prefix_append_right_inj p.lead.1).mpr hlead
      _ = p := lead_append p
  · exact fun name hname => slash_not_mem_of_mem_segments name (hbegins.subset hname)

/-- Idle names between the others are left out, but a path keeps its beginning. -/
example : Manifest.folder "d/./m.json".toList = "d".toList ∧
    Manifest.folder "./m.json".toList = ".".toList ∧ Manifest.folder "m.json".toList = [] := by decide

/-- What is joined to the folder of a manifest is beside it. -/
theorem beside_join {p : Path} {before : List Text} {name : Text} (h : p.names = before ++ [name])
    (hname : name ≠ ['.', '.']) (r : Path) : p.Beside r ((Manifest.folder p).join r) where
  absolute := join_of_isAbsolute _
  resolve here := by
    obtain ⟨hnames, habsolute, -⟩ := names_folder h
    refine ⟨(Manifest.folder p).resolve here, name, ?_, hname, resolve_join here _ r⟩
    rw [resolve, resolve, h, hnames, habsolute, List.append_assoc]

end Path

namespace FileSystem

variable {fs : FileSystem} {p : Path}

/-- A path means a name in a folder only if it ends in the name, which does not lead up, and the names in
    front lead to the folder. -/
theorem of_locate_eq_name {folder : Location} {name : Text} {slash : Bool}
    (h : fs.locate p = .ok (.name folder name slash)) : ∃ before,
      p.segments.filter (!·.isEmpty) = before ++ [name] ∧ ¬ name = ['.'] ∧ ¬ name = ['.', '.'] ∧
      fs.descend (if p.isAbsolute then [] else fs.here) before = .ok folder ∧ '\x00' ∉ p := by
  unfold locate at h
  split at h
  · cases h
  next hzero =>
  split at h
  · cases h
  split at h
  · cases h
  dsimp only at h
  split at h
  · cases h
  next hdescend =>
  split at h
  · cases h
  next last hlast =>
  split at h
  · cases h
  next hdot =>
  split at h
  · cases h
  next hup =>
  cases h
  obtain ⟨before, hbefore⟩ := List.getLast?_eq_some_iff.mp hlast
  rw [hbefore, List.dropLast_concat] at hdescend
  exact ⟨before, hbefore, hdot, hup, hdescend, by simpa using hzero⟩

theorem of_read_eq_ok {content : ByteArray} (h : fs.read p = .ok content) :
    ∃ folder name slash, fs.locate p = .ok (.name folder name slash) := by
  unfold read at h
  split at h
  · cases h
  · cases h
  · next folder name slash hlocate => exact ⟨folder, name, slash, hlocate⟩

/-- The path of a file that is read ends in a name that does not lead up. -/
theorem exists_names_of_read {content : ByteArray} (h : fs.read p = .ok content) :
    ∃ before name, p.names = before ++ [name] ∧ name ≠ ['.', '.'] := by
  obtain ⟨folder, name, slash, hlocate⟩ := of_read_eq_ok h
  obtain ⟨before, hbefore, hdot, hup, -⟩ := of_locate_eq_name hlocate
  exact ⟨_, name, Path.names_of_filter hbefore hdot, hup⟩

/-! ### Walking -/

theorem descend_here (here : Location) (names : List Text) : ∀ start,
    ({ fs with here } : FileSystem).descend start names = fs.descend start names := by
  induction names with
  | nil => exact fun _ => rfl
  | cons name names ih =>
    intro start
    simp only [descend, ih]
    rfl

/-- Idle names lead nowhere. -/
theorem descend_filter (names : List Text) : ∀ start,
    fs.descend start (names.filter (!Path.isIdle ·)) = fs.descend start names := by
  induction names with
  | nil => exact fun _ => rfl
  | cons name names ih =>
    intro start
    cases hidle : Path.isIdle name with
    | true => rw [List.filter_cons_of_neg (by simp [hidle]), descend, if_pos hidle, ih]
    | false =>
      rw [List.filter_cons_of_pos (by simp [hidle])]
      simp only [descend, ih]

theorem descend_append {first : List Text} (second : List Text) {folder : Location} : ∀ {start},
    fs.descend start first = .ok folder →
      fs.descend start (first ++ second) = fs.descend folder second := by
  induction first with
  | nil =>
    intro start h
    cases h
    rfl
  | cons name first ih =>
    intro start h
    rw [descend] at h
    rw [List.cons_append, descend]
    split at h
    · next hidle => rw [if_pos hidle, ih h]
    · next hidle =>
      rw [if_neg hidle]
      split at h
      · next hup => rw [if_pos hup, ih h]
      · next hup =>
        rw [if_neg hup]
        split at h
        · cases h
        · cases h
        · cases h
        · exact ih h

/-- What a path means whose last name is known. -/
theorem locate_of_names {before : List Text} {name : Text} (hsize : p.byteSize < pathMax)
    (h : p.segments.filter (!·.isEmpty) = before ++ [name]) :
    fs.locate p = if p.contains '\x00' then .error .zeroInName else
      (fs.descend (if p.isAbsolute then [] else fs.here) before).map fun folder =>
        if name = ['.'] then .folder folder
        else if name = ['.', '.'] then .folder folder.dropLast
        else .name folder name p.endsWithSlash := by
  have hp : p.isEmpty = false := by
    cases p with
    | nil => simp [Path.segments] at h
    | cons c p => rfl
  rw [locate, hp, if_neg Bool.false_ne_true, if_neg (Nat.not_le.mpr hsize)]
  congr 1
  dsimp only
  rw [h, List.dropLast_concat, List.getLast?_concat]
  cases fs.descend (if p.isAbsolute then [] else fs.here) before with
  | error cause => rfl
  | ok folder =>
    dsimp only [Except.map]
    split
    · rfl
    · split <;> rfl

/-- A path as seen from the folder of a manifest means what it means from where the manifest is. -/
theorem locate_join {folder : Location} {name : Text} {slash : Bool}
    (h : fs.locate p = .ok (.name folder name slash)) {r : Path} (hr : r ≠ [])
    (hsize : ((Manifest.folder p).join r).byteSize < pathMax) :
    fs.locate ((Manifest.folder p).join r) = ({ fs with here := folder } : FileSystem).locate r := by
  obtain ⟨before, hbefore, hdot, hup, hdescend, hzero⟩ := of_locate_eq_name h
  cases habsolute : r.isAbsolute with
  | true =>
    rw [Path.join_of_isAbsolute _ habsolute, locate, locate]
    simp only [habsolute, descend_here, if_true]
  | false =>
    obtain ⟨first, last, hfirst⟩ := Path.exists_filter_segments hr habsolute
    obtain ⟨hnames, hstart, hbegins⟩ := Path.names_folder (Path.names_of_filter hbefore hdot)
    have hall : ((Manifest.folder p).join r).segments.filter (!·.isEmpty) =
        ((Manifest.folder p).segments.filter (!·.isEmpty) ++ first) ++ [last] := by
      rw [Path.filter_segments_join habsolute _ rfl, hfirst, List.append_assoc]
    -- the walk to the folder is that of the manifest, without its idle names
    have hfolder : fs.descend (if p.isAbsolute then [] else fs.here)
        ((Manifest.folder p).segments.filter (!·.isEmpty)) = .ok folder := by
      rw [← descend_filter, ← Path.names_eq, hnames, descend_filter, hdescend]
    obtain ⟨front, hjoin, hfront⟩ := Path.exists_join_eq_append habsolute (Manifest.folder p)
    have hzeros : ((Manifest.folder p).join r).contains '\x00' = r.contains '\x00' := by
      have hclean : '\x00' ∉ front := fun hmem =>
        (hfront _ hmem).elim (fun hbase => hzero (hbegins.subset hbase)) (by decide)
      simp [hjoin, hclean]
    have hslash : ((Manifest.folder p).join r).endsWithSlash = r.endsWithSlash := by
      simp [hjoin, Path.endsWithSlash, hr]
    have hrsize : r.byteSize < pathMax := by
      rw [hjoin, Text.byteSize_append] at hsize
      omega
    rw [locate_of_names hsize hall, locate_of_names hrsize hfirst, hzeros, hslash,
      Path.isAbsolute_join habsolute, hstart, descend_append first hfolder, habsolute,
      if_neg Bool.false_ne_true, descend_here folder]

end FileSystem

/-- A job is loaded as it is listed, save for its paths. -/
structure Job.LoadedFrom (p : Path) (listed loaded : Job) : Prop where
  stage : loaded.stage = listed.stage
  backend : loaded.backend = listed.backend
  defines : loaded.defines = listed.defines
  input : p.Beside listed.input loaded.input
  output : Option.Rel p.Beside listed.output loaded.output

theorem Job.loadedFrom_rebase {p base : Path} (h : ∀ r, p.Beside r (base.join r)) (job : Job) :
    job.LoadedFrom p (job.rebase base) where
  stage := rfl
  backend := rfl
  defines := rfl
  input := h job.input
  output := by
    cases hout : job.output with
    | none => simp [rebase, hout]
    | some r => simpa [rebase, hout] using h r

/-- The jobs of a manifest at a path are those that its text lists, with other paths. -/
theorem Manifest.parseAt_eq_ok {p : Path} {s : Text} {jobs : List Job} :
    parseAt p s = .ok jobs ↔
      ∃ listed, parse s = .ok listed ∧ listed.map (Job.rebase (folder p)) = jobs := by
  rw [parseAt]
  cases parse s <;> simp [Except.map]

namespace Workspace

theorem exists_read_of_readText {files : FileSystem} {p : Path} {s : Text}
    (h : readText files p = .ok s) : ∃ content, files.read p = .ok content := by
  unfold readText at h
  split at h
  · cases h
  · next content hcontent => exact ⟨content, hcontent⟩

/-- What loads is what the text of the manifest lists, in order, with paths that lead to where the listed
    ones lead from the folder of the manifest. -/
theorem loaded_beside {files : FileSystem} {p : Path} {jobs : List Job}
    (h : load files p = .ok jobs) : ∃ s listed, readText files p = .ok s ∧
      Manifest.parse s = .ok listed ∧ List.Forall₂ (Job.LoadedFrom p) listed jobs := by
  obtain ⟨s, hread, hparse⟩ := load_eq_ok.mp h
  obtain ⟨listed, hlisted, rfl⟩ := Manifest.parseAt_eq_ok.mp hparse
  obtain ⟨content, hcontent⟩ := exists_read_of_readText hread
  obtain ⟨before, name, hnames, hname⟩ := FileSystem.exists_names_of_read hcontent
  refine ⟨s, listed, hread, hlisted, ?_⟩
  rw [List.forall₂_map_right_iff, List.forall₂_same]
  exact fun job _ => job.loadedFrom_rebase (Path.beside_join hnames hname)

/-- A manifest of three jobs, with paths of many shapes. -/
def manyShapes : Text :=
  ("[[\"../src/./a.vert\",\"out//a.vert\",\"vertex\",\"gles3\"]," ++
    "[\"/lib/b.vert\",null,\"vertex\",\"vulkan\"],[\"\",\"/c.vert\",\"vertex\",\"gles3\"]]").toList

/-- A file system with the manifest in a folder of the working folder. -/
def nested : FileSystem where
  entries := [(["w".toList, "d".toList, "m.json".toList], .file manyShapes.toBytes),
    (["w".toList, "d".toList], .folder), (["w".toList], .folder)]
  here := ["w".toList]

/-- What the manifest lists. -/
def nestedListed : List Job :=
  [⟨"../src/./a.vert".toList, some "out//a.vert".toList, .vertex, .gles3, .empty⟩,
   ⟨"/lib/b.vert".toList, none, .vertex, .vulkan, .empty⟩,
   ⟨[], some "/c.vert".toList, .vertex, .gles3, .empty⟩]

/-- What is loaded of it. -/
def nestedLoaded : List Job :=
  [⟨"./d/../src/./a.vert".toList, some "./d/out//a.vert".toList, .vertex, .gles3, .empty⟩,
   ⟨"/lib/b.vert".toList, none, .vertex, .vulkan, .empty⟩,
   ⟨"./d/".toList, some "/c.vert".toList, .vertex, .gles3, .empty⟩]

theorem loaded_beside_nested : load nested "./d//m.json".toList = .ok nestedLoaded ∧
    List.Forall₂ (Job.LoadedFrom "./d//m.json".toList) nestedListed nestedLoaded := by
  have hread : readText nested "./d//m.json".toList = .ok manyShapes := readText_of_read rfl
  have hlisted : Manifest.parse manyShapes = .ok nestedListed := by decide +kernel
  have hload : load nested "./d//m.json".toList = .ok nestedLoaded :=
    load_eq_ok.mpr ⟨manyShapes, hread, by rw [Manifest.parseAt, hlisted]; decide⟩
  obtain ⟨s, listed, hs, hjobs, hall⟩ := loaded_beside hload
  have htext : manyShapes = s := Except.ok.inj (hread.symm.trans hs)
  have hsame : nestedListed = listed := by
    rw [← htext, hlisted] at hjobs
    exact Except.ok.inj hjobs
  exact ⟨hload, hsame ▸ hall⟩

end Workspace

end Shading
