import Shading.Run

/-!
    What a run of one shader does to a workspace.

    `Acts` says what an action answers, which files it leaves and what it prints, from some files and
    whatever has been printed before. Making folders adds folders and changes nothing else, also when it
    is refused halfway, so a result is delivered in one of three ways (`Delivered`): it is printed, it is
    written with folders above it, or a refusal leaves new folders at most. Everything that comes before
    the delivery only looks at the files, and finds in them what the request asks for
    (`Single.Yields`). -/

namespace Shading

/-! ### New folders -/

/-- The second file system is the first with further folders. -/
structure FileSystem.AddsFolders (old new : FileSystem) : Prop where
  here : new.here = old.here
  entries : ∀ location, new.get? location = old.get? location ∨
    old.get? location = none ∧ new.get? location = some .folder

namespace FileSystem.AddsFolders

theorem refl (fs : FileSystem) : AddsFolders fs fs := ⟨rfl, fun _ => .inl rfl⟩

theorem trans {a b c : FileSystem} (hab : AddsFolders a b) (hbc : AddsFolders b c) :
    AddsFolders a c where
  here := hbc.here.trans hab.here
  entries location := by
    rcases hbc.entries location with hc | ⟨hb, hc⟩
    · rw [hc]
      exact hab.entries location
    · rcases hab.entries location with hb' | ⟨_, hb'⟩
      · exact .inr ⟨hb'.symm.trans hb, hc⟩
      · rw [hb'] at hb
        cases hb

theorem makeFolder {fs new : FileSystem} {p : Path} (h : fs.makeFolder p = .ok new) :
    AddsFolders fs new := by
  unfold FileSystem.makeFolder at h
  split at h
  · cases h
  · cases h
  · next folder name _ _ =>
    split at h
    · cases h
    · cases h
    · next hlookup =>
      cases h
      have hfree : fs.get? (folder ++ [name]) = none := by
        unfold lookup at hlookup
        split at hlookup
        · cases hlookup
        · exact Except.ok.inj hlookup
      refine ⟨rfl, fun location => ?_⟩
      by_cases hl : location = folder ++ [name]
      · rw [hl]
        exact .inr ⟨hfree, get?_put fs (by simp) .folder⟩
      · exact .inl (get?_put_of_ne fs hl .folder)

end FileSystem.AddsFolders

/-! ### What a request asks for -/

/-- The text of a source. -/
inductive Source.HasText (files : FileSystem) : Source → Text → Prop
  | file {path : Path} {s : Text} (h : Workspace.readText files path = .ok s) :
      HasText files (.file path) s
  | builtin {name s : Text} (h : BuiltinShaders.named? name = some s) : HasText files (.builtin name) s

/-- The symbols of the entries, with those that the file defines, if there is one. -/
inductive DefineSet.Merges (files : FileSystem) (entries : List Text) : Option Path → DefineSet → Prop
  | entries : Merges files entries none (.ofEntries entries)
  | file {path : Path} {s : Text} (h : Workspace.readText files path = .ok s) :
      Merges files entries (some path)
        ((DefineSet.ofEntries entries).insertAll (DefineSet.ofDirectives s).names)

/-- The files give the request a result: the text of its source, adapted by the dialect of its backend
    for its stage and the symbols that it merges. -/
def Single.Yields (single : Single) (files : FileSystem) (result : Text) : Prop :=
  ∃ source s defines dialect, single.source = some source ∧ source.HasText files s ∧
    DefineSet.Merges files single.defines single.definesFile defines ∧
    Registry.defaults.get single.backend = .ok dialect ∧
    result = dialect.adapt defines single.stage s

namespace Workspace

open FileSystem (AddsFolders)

/-! ### Actions -/

/-- From the files, whatever is printed, the action gives an answer, leaves the files `after` and prints
    the text. -/
def Acts (x : StateM Workspace α) (files : FileSystem) (answer : α) (after : FileSystem) (text : Text) :
    Prop :=
  ∀ printed, x ⟨files, printed⟩ = (answer, ⟨after, printed ++ text⟩)

theorem acts_pure (answer : α) (files : FileSystem) : Acts (pure answer) files answer files [] :=
  fun printed => by rw [List.append_nil]; rfl

section

variable {files between after : FileSystem} {s t : Text}

theorem Acts.bind {x : StateM Workspace α} {f : α → StateM Workspace β} {a : α} {b : β}
    (h : Acts x files a between s) (hf : Acts (f a) between b after t) :
    Acts (x >>= f) files b after (s ++ t) := fun printed => by
  show (match x ⟨files, printed⟩ with | (a, w) => f a w) = _
  rw [h printed, ← List.append_assoc]
  exact hf _

variable {x : ExceptT Failure (StateM Workspace) α} {f : α → ExceptT Failure (StateM Workspace) β}

theorem Acts.bind_ok {a : α} {answer : Except Failure β} (h : Acts x.run files (.ok a) between s)
    (hf : Acts (f a).run between answer after t) : Acts (x >>= f).run files answer after (s ++ t) := by
  rw [ExceptT.run_bind]
  exact h.bind hf

theorem Acts.bind_error {failure : Failure} (h : Acts x.run files (.error failure) after s) :
    Acts (x >>= f).run files (.error failure) after s := by
  rw [ExceptT.run_bind, ← List.append_nil s]
  exact h.bind (acts_pure _ _)

/-- An action on a path answers with what it is refused. -/
theorem Acts.onPath {act : StateM Workspace (Except IoCause α)} {answer : Except IoCause α}
    (h : Acts act files answer after s) (path : Path) :
    Acts (onPath path act).run files (answer.mapError (.io path)) after s := by
  rw [← List.append_nil s]
  refine h.bind ?_
  cases answer with
  | ok a => exact acts_pure _ _
  | error cause => exact acts_pure _ _

end

/-- The action leaves the files as they are and prints nothing; what it answers with, it finds in
    them. -/
def Looks (x : ExceptT Failure (StateM Workspace) α) (finds : FileSystem → α → Prop) : Prop :=
  ∀ files, ∃ answer, Acts x.run files answer files [] ∧ ∀ a, answer = .ok a → finds files a

theorem looks_pure {finds : FileSystem → α → Prop} {a : α} (h : ∀ files, finds files a) :
    Looks (pure a) finds := fun files => ⟨.ok a, acts_pure _ files, by rintro _ ⟨⟩; exact h files⟩

theorem looks_throw (failure : Failure) (finds : FileSystem → α → Prop) : Looks (throw failure) finds :=
  fun files => ⟨.error failure, acts_pure _ files, by rintro _ ⟨⟩⟩

theorem Looks.bind {x : ExceptT Failure (StateM Workspace) α}
    {f : α → ExceptT Failure (StateM Workspace) β} {finds : FileSystem → α → Prop}
    {findsMore : FileSystem → β → Prop} (h : Looks x finds)
    (hf : ∀ a, Looks (f a) fun files b => finds files a → findsMore files b) :
    Looks (x >>= f) findsMore := fun files => by
  obtain ⟨a | a, hx, hfinds⟩ := h files
  · exact ⟨.error a, hx.bind_error, by rintro _ ⟨⟩⟩
  · obtain ⟨answer, ha, hmore⟩ := hf a files
    exact ⟨answer, hx.bind_ok ha, fun b hb => hmore b hb (hfinds a rfl)⟩

theorem acts_readText (path : Path) (files : FileSystem) : Acts (Shading.readText host path).run files
    ((readText files path).mapError (.io path)) files [] := by
  have hread : Acts (host.read path) files (readText files path) files [] :=
    fun printed => by rw [List.append_nil]; rfl
  exact hread.onPath path

/-- A file that holds the bytes of a text is read as the text. -/
theorem readText_of_read {files : FileSystem} {path : Path} {s : Text}
    (h : files.read path = .ok s.toBytes) : readText files path = .ok s := by
  rw [readText, h]
  dsimp only
  rw [Text.ofBytes?_toBytes]

theorem looks_readText (path : Path) :
    Looks (Shading.readText host path) fun files s => readText files path = .ok s := fun files => by
  refine ⟨_, acts_readText path files, fun s hs => ?_⟩
  cases h : readText files path with
  | error cause =>
    rw [h] at hs
    cases hs
  | ok t =>
    rw [h] at hs
    cases hs
    exact h

theorem looks_readSource (source : Option Source) : Looks (readSource host source) fun files s =>
    ∃ given, source = some given ∧ given.HasText files s := by
  unfold readSource
  split
  · exact looks_throw _ _
  · next path =>
    intro files
    obtain ⟨answer, hacts, hread⟩ := looks_readText path files
    exact ⟨answer, hacts, fun s hs => ⟨_, rfl, .file (hread s hs)⟩⟩
  · split
    · next hname => exact looks_pure fun _ => ⟨_, rfl, .builtin hname⟩
    · exact looks_throw _ _

theorem looks_collectDefines (entries : List Text) (path : Option Path) :
    Looks (collectDefines host entries path) fun files defines =>
      DefineSet.Merges files entries path defines := by
  unfold collectDefines
  split
  · exact looks_pure fun _ => .entries
  · exact (looks_readText _).bind fun _ => looks_pure fun _ hread => .file hread

theorem looks_adaptFor (backend : Backend) (defines : DefineSet) (stage : Stage) (s : Text) :
    Looks (adaptFor backend defines stage s) fun _ result => ∃ dialect,
      Registry.defaults.get backend = .ok dialect ∧ result = dialect.adapt defines stage s := by
  unfold adaptFor Registry.adapt
  cases hget : Registry.defaults.get backend with
  | ok dialect => exact looks_pure fun _ => ⟨dialect, rfl, rfl⟩
  | error error => exact looks_throw _ _

/-! ### Making folders -/

/-- The action adds folders at most and prints nothing. -/
def MakesFolders (x : StateM Workspace α) : Prop :=
  ∀ files, ∃ answer after, Acts x files answer after [] ∧ AddsFolders files after

theorem makesFolders_pure (a : α) : MakesFolders (pure a) :=
  fun files => ⟨a, files, acts_pure a files, .refl files⟩

theorem MakesFolders.bind {x : StateM Workspace α} {f : α → StateM Workspace β} (h : MakesFolders x)
    (hf : ∀ a, MakesFolders (f a)) : MakesFolders (x >>= f) := fun files => by
  obtain ⟨a, between, hx, hbetween⟩ := h files
  obtain ⟨answer, after, ha, hafter⟩ := hf a between
  exact ⟨answer, after, hx.bind ha, hbetween.trans hafter⟩

theorem makesFolders_makeFolder (path : Path) : MakesFolders (host.makeFolder path) := fun files => by
  cases h : files.makeFolder path with
  | ok after =>
    refine ⟨.ok (), after, fun printed => ?_, .makeFolder h⟩
    simp only [host, h, List.append_nil]
  | error cause =>
    refine ⟨.error cause, files, fun printed => ?_, .refl files⟩
    simp only [host, h, List.append_nil]

theorem makesFolders_isFolder (path : Path) : MakesFolders (host.isFolder path) := fun files =>
  ⟨files.isFolder path, files, fun printed => by rw [List.append_nil]; rfl, .refl files⟩

theorem makesFolders_makeFoldersWithin : ∀ (depth : Nat) (path : Path),
    MakesFolders (makeFoldersWithin host depth path)
  | 0, _ => makesFolders_pure _
  | depth + 1, path => by
    have hagain (cause : IoCause) : MakesFolders (do
        return if ← host.isFolder path then (.ok () : Except IoCause Unit) else .error cause) :=
      (makesFolders_isFolder path).bind fun _ => makesFolders_pure _
    -- a refusal halfway keeps what was made, so every branch is a row of steps that add folders
    unfold makeFoldersWithin
    split
    · exact makesFolders_pure _
    · refine (makesFolders_makeFolder path).bind fun first => ?_
      split
      · exact makesFolders_pure _
      · split
        · refine (makesFolders_makeFoldersWithin depth _).bind fun above => ?_
          split
          · exact makesFolders_pure _
          · refine (makesFolders_makeFolder path).bind fun second => ?_
            split
            · exact makesFolders_pure _
            · exact hagain _
        · exact hagain _

/-! ### Delivering a result -/

/-- The ways in which a result is delivered: what is answered, which files are left and what is
    printed. -/
inductive Delivered (files : FileSystem) (result : Text) :
    Option Path → Except Failure Unit → FileSystem → Text → Prop
  | printed : Delivered files result none (.ok ()) files result
  | written {path : Path} {between after : FileSystem} (hadds : AddsFolders files between)
      (hwrite : between.write path result.toBytes = .ok after) :
      Delivered files result (some path) (.ok ()) after []
  | refused {path : Path} {failure : Failure} {after : FileSystem} (hadds : AddsFolders files after) :
      Delivered files result (some path) (.error failure) after []

/-- Behind new folders, a result is written or refused. -/
theorem acts_write {files between : FileSystem} (hadds : AddsFolders files between) (path : Path)
    (result : Text) : ∃ answer after,
    Acts (onPath path (host.write path result)).run between answer after [] ∧
      Delivered files result (some path) answer after [] := by
  cases h : between.write path result.toBytes with
  | ok after =>
    have hwrite : Acts (host.write path result) between (.ok ()) after [] :=
      fun printed => by simp only [host, h, List.append_nil]
    exact ⟨.ok (), after, hwrite.onPath path, .written hadds h⟩
  | error cause =>
    have hwrite : Acts (host.write path result) between (.error cause) between [] :=
      fun printed => by simp only [host, h, List.append_nil]
    exact ⟨.error (.io path cause), between, hwrite.onPath path, .refused hadds⟩

theorem acts_deliver (output : Option Path) (result : Text) (files : FileSystem) :
    ∃ answer after text, Acts (deliver host output result).run files answer after text ∧
      Delivered files result output answer after text := by
  unfold deliver
  split
  · exact ⟨.ok (), files, result, fun _ => rfl, .printed⟩
  · next path =>
    split
    · next c folder _ =>
      obtain ⟨made, between, hmade, hadds⟩ :=
        makesFolders_makeFoldersWithin ((c :: folder).length + 1) (c :: folder) files
      have hfolders := hmade.onPath (c :: folder)
      cases made with
      | error cause => exact ⟨_, between, [], hfolders.bind_error, .refused hadds⟩
      | ok u =>
        obtain ⟨answer, after, hwrite, hdelivered⟩ := acts_write hadds path result
        exact ⟨answer, after, [], hfolders.bind_ok hwrite, hdelivered⟩
    · obtain ⟨answer, after, hwrite, hdelivered⟩ := acts_write (.refl files) path result
      exact ⟨answer, after, [], hwrite, hdelivered⟩

theorem Delivered.of_error {files after : FileSystem} {result text : Text} {output : Option Path}
    {failure : Failure} (h : Delivered files result output (.error failure) after text) :
    AddsFolders files after ∧ text = [] := by
  cases h with
  | refused hadds => exact ⟨hadds, rfl⟩

/-- The action fails with everything as it was, or it delivers a result that it finds. -/
def Delivers (x : ExceptT Failure (StateM Workspace) Unit) (output : Option Path)
    (finds : FileSystem → Text → Prop) : Prop :=
  ∀ files, (∃ failure, Acts x.run files (.error failure) files []) ∨
    ∃ result answer after text, finds files result ∧ Acts x.run files answer after text ∧
      Delivered files result output answer after text

theorem Looks.bind_delivers {x : ExceptT Failure (StateM Workspace) α} {output : Option Path}
    {f : α → ExceptT Failure (StateM Workspace) Unit} {finds : FileSystem → α → Prop}
    {findsMore : FileSystem → Text → Prop} (h : Looks x finds)
    (hf : ∀ a, Delivers (f a) output fun files result => finds files a → findsMore files result) :
    Delivers (x >>= f) output findsMore := fun files => by
  obtain ⟨failure | a, hx, hfinds⟩ := h files
  · exact .inl ⟨failure, hx.bind_error⟩
  · rcases hf a files with ⟨failure, ha⟩ | ⟨result, answer, after, text, hmore, ha, hdelivered⟩
    · exact .inl ⟨failure, hx.bind_ok ha⟩
    · exact .inr ⟨result, answer, after, text, hmore (hfinds a rfl), hx.bind_ok ha, hdelivered⟩

/-- A run of one shader delivers at its end what the request asks for, and only looks at the files
    before. -/
theorem delivers_runSingle (single : Single) :
    Delivers (runSingle host single) single.output (single.Yields) :=
  (looks_readSource _).bind_delivers fun s =>
    (looks_collectDefines _ _).bind_delivers fun defines =>
      (looks_adaptFor _ _ _ _).bind_delivers fun result files => by
        obtain ⟨answer, after, text, hacts, hdelivered⟩ := acts_deliver single.output result files
        refine .inr ⟨result, answer, after, text, ?_, hacts, hdelivered⟩
        rintro ⟨dialect, hget, hresult⟩ hdefines ⟨source, hsource, hs⟩
        exact ⟨source, s, defines, dialect, hsource, hs, hdefines, hget, hresult⟩

/-- A run of one shader that fails prints nothing, and makes folders at most. -/
theorem acts_runSingle (single : Single) (files : FileSystem) : ∃ answer after text,
    Acts (runSingle host single).run files answer after text ∧
      ∀ failure, answer = .error failure → AddsFolders files after ∧ text = [] := by
  rcases delivers_runSingle single files with ⟨failure, hacts⟩ | ⟨_, answer, after, text, _, hacts, h⟩
  · exact ⟨.error failure, files, [], hacts, fun _ _ => ⟨.refl files, rfl⟩⟩
  · refine ⟨answer, after, text, hacts, ?_⟩
    rintro failure rfl
    exact h.of_error

end Workspace

end Shading
