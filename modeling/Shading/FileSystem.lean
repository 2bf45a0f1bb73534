import Shading.Path
import Shading.Text.Bytes

/-!
    A file system.

    Entries lie at locations, the lists of names that lead to them from the root. A path is walked name
    by name from the root or from the working folder; every name but the last has to lead to a folder,
    `.` stays and `..` goes up. A path that ends in a slash can only mean a folder. Reading, writing and
    making folders refuse with the cause that a user sees. -/

namespace Shading

/-- Why an operation on a file is refused. -/
inductive IoCause where
  | notFound
  | alreadyExists
  | notFolder
  | isFolder
  | nameTooLong
  | zeroInName
  | notText
  | other (description : String)
  deriving DecidableEq, Repr

/-- The wording of a cause. -/
def IoCause.message : IoCause → String
  | .notFound => "No such file or directory (os error 2)"
  | .alreadyExists => "File exists (os error 17)"
  | .notFolder => "Not a directory (os error 20)"
  | .isFolder => "Is a directory (os error 21)"
  | .nameTooLong => "File name too long (os error 36)"
  | .zeroInName => "file name contained an unexpected NUL byte"
  | .notText => "stream did not contain valid UTF-8"
  | .other description => description

/-- The names that lead to an entry from the root. -/
abbrev Location := List Text

/-- What lies at a location. -/
inductive Entry where
  | folder
  | file (content : ByteArray)

instance : DecidableEq Entry
  | .folder, .folder => isTrue rfl
  | .folder, .file _ => isFalse Entry.noConfusion
  | .file _, .folder => isFalse Entry.noConfusion
  | .file a, .file b =>
    if h : a.data = b.data then isTrue (congrArg Entry.file (ByteArray.ext h))
    else isFalse fun heq => h (congrArg ByteArray.data (Entry.file.inj heq))

/-- Entries at their locations, and the working folder. The root is always a folder. -/
structure FileSystem where
  entries : List (Location × Entry)
  here : Location

namespace FileSystem

/-- What lies at a location, if anything. -/
def get? (fs : FileSystem) (location : Location) : Option Entry :=
  if location.isEmpty then some .folder
  else (fs.entries.find? (·.1 == location)).map (·.2)

/-- Put an entry at a location, in place of what lies there. -/
def put (fs : FileSystem) (location : Location) (entry : Entry) : FileSystem :=
  { fs with entries := (location, entry) :: fs.entries.filter (·.1 != location) }

/-! ### Walking a path -/

/-- The greatest size of a name. -/
def nameMax : Nat := 255

/-- The size that a path has to stay below. -/
def pathMax : Nat := 4096

/-- What a name in a folder leads to. -/
def lookup (fs : FileSystem) (folder : Location) (name : Text) : Except IoCause (Option Entry) :=
  if nameMax < name.byteSize then .error .nameTooLong else .ok (fs.get? (folder ++ [name]))

/-- Walk from a folder through folders. -/
def descend (fs : FileSystem) : Location → List Text → Except IoCause Location
  | location, [] => .ok location
  | location, name :: names =>
    if Path.isIdle name then descend fs location names
    else if name = ['.', '.'] then descend fs location.dropLast names
    else match fs.lookup location name with
      | .error cause => .error cause
      | .ok none => .error .notFound
      | .ok (some (.file _)) => .error .notFolder
      | .ok (some .folder) => descend fs (location ++ [name]) names

/-- What a path means: a folder, or a name in a folder, with a slash behind it or not. -/
inductive Goal where
  | folder (location : Location)
  | name (folder : Location) (name : Text) (slash : Bool)

/-- Walk a path up to its last name. -/
def locate (fs : FileSystem) (p : Path) : Except IoCause Goal :=
  if p.contains '\x00' then .error .zeroInName
  else if p.isEmpty then .error .notFound
  else if pathMax ≤ p.byteSize then .error .nameTooLong
  else
    let names := p.segments.filter (!·.isEmpty)
    match fs.descend (if p.isAbsolute then [] else fs.here) names.dropLast with
    | .error cause => .error cause
    | .ok folder =>
      match names.getLast? with
      | none => .ok (.folder folder)
      | some last =>
        if last = ['.'] then .ok (.folder folder)
        else if last = ['.', '.'] then .ok (.folder folder.dropLast)
        else .ok (.name folder last p.endsWithSlash)

/-- The path leads to a folder. -/
def isFolder (fs : FileSystem) (p : Path) : Bool :=
  match fs.locate p with
  | .ok (.folder _) => true
  | .ok (.name folder name _) =>
    match fs.lookup folder name with
    | .ok (some .folder) => true
    | _ => false
  | .error _ => false

/-! ### Operations -/

/-- The content of a file. -/
def read (fs : FileSystem) (p : Path) : Except IoCause ByteArray :=
  match fs.locate p with
  | .error cause => .error cause
  | .ok (.folder _) => .error .isFolder
  | .ok (.name folder name slash) =>
    match fs.lookup folder name with
    | .error cause => .error cause
    | .ok none => .error .notFound
    | .ok (some .folder) => .error .isFolder
    | .ok (some (.file content)) => if slash then .error .notFolder else .ok content

/-- Give a file a content; the file is made if it is not there. -/
def write (fs : FileSystem) (p : Path) (content : ByteArray) : Except IoCause FileSystem :=
  match fs.locate p with
  | .error cause => .error cause
  | .ok (.folder _) => .error .isFolder
  | .ok (.name folder name slash) =>
    if slash then .error .isFolder
    else match fs.lookup folder name with
      | .error cause => .error cause
      | .ok (some .folder) => .error .isFolder
      | .ok _ => .ok (fs.put (folder ++ [name]) (.file content))

/-- Make a folder. -/
def makeFolder (fs : FileSystem) (p : Path) : Except IoCause FileSystem :=
  match fs.locate p with
  | .error cause => .error cause
  | .ok (.folder _) => .error .alreadyExists
  | .ok (.name folder name _) =>
    match fs.lookup folder name with
    | .error cause => .error cause
    | .ok (some _) => .error .alreadyExists
    | .ok none => .ok (fs.put (folder ++ [name]) .folder)

/-- An empty file system with a working folder. -/
def fresh (here : Location) : FileSystem :=
  ⟨(List.range (here.length + 1)).map fun n => (here.take n, .folder), here⟩

/-- Put a file at a location, and folders above it. -/
def plant (fs : FileSystem) (location : Location) (content : ByteArray) : FileSystem :=
  ((List.range location.length).foldl (fun fs n => fs.put (location.take n) .folder) fs).put
    location (.file content)

/-- The files of the second file system that the first does not have with the same content. -/
def changes (old new : FileSystem) : List (Location × ByteArray) :=
  new.entries.filterMap fun (location, entry) =>
    match entry with
    | .folder => none
    | .file content => if old.get? location = some entry then none else some (location, content)

/-! ### What an operation leaves behind -/

theorem get?_put (fs : FileSystem) {location : Location} (h : location ≠ []) (entry : Entry) :
    (fs.put location entry).get? location = some entry := by
  cases location with
  | nil => exact absurd rfl h
  | cons name rest => simp [get?, put]

theorem get?_put_of_ne (fs : FileSystem) {location other : Location} (h : other ≠ location)
    (entry : Entry) : (fs.put location entry).get? other = fs.get? other := by
  have hne : (location == other) = false := by simpa using fun h' => h h'.symm
  simp only [get?, put]
  split
  · rfl
  · rw [List.find?_cons, hne]
    dsimp only
    rw [List.find?_filter]
    congr 1
    congr 1
    funext e
    by_cases he : e.1 = other
    · simp [he, h]
    · simp [he]

end FileSystem

/-- The text of bytes, if they are UTF-8. -/
def Text.ofBytes? (bytes : ByteArray) : Option Text := (String.fromUTF8? bytes).map String.toList

/-- The bytes of a text in UTF-8. -/
def Text.toBytes (s : Text) : ByteArray := (String.ofList s).toUTF8

/-- A text is read back from its bytes. -/
theorem Text.ofBytes?_toBytes (s : Text) : Text.ofBytes? s.toBytes = some s := by
  have h : String.fromUTF8? s.toBytes = some (String.ofList s) := dif_pos (String.ofList s).isValidUTF8
  rw [Text.ofBytes?, h, Option.map_some, String.toList_ofList]

end Shading
