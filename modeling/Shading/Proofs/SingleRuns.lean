import Mathlib.Control.Monad.Basic
import Shading.Proofs.Delivery

/-!
    What a run of one shader leaves behind.

    A run that fails has printed nothing, and every file is there as it was. A run that succeeds has
    printed the result and left the files alone, or it has printed nothing and written the result to the
    output and to no other file (`run_single`); which of the two depends only on whether the request names
    an output. New folders may be left in any case, but no file lies in the place of one.

    A path is walked through folders, and a file in place of what is no folder leads nowhere else. So the
    output leads to the same location before and after the writing, and the result is read back from it
    (`read_write`). -/

namespace Shading

/-! ### Files -/

namespace FileSystem

/-- The content of the file at a location, if there is one. -/
def content? (fs : FileSystem) (location : Location) : Option ByteArray :=
  match fs.get? location with
  | some (.file content) => some content
  | _ => none

/-- The path leads to the location, as a path to a file does. -/
def LeadsTo (fs : FileSystem) (p : Path) (location : Location) : Prop :=
  ∃ folder name, fs.locate p = .ok (.name folder name false) ∧ location = folder ++ [name]

/-- The second file system has the content where the path leads, and its other files are those of the
    first. -/
def OnlyWrites (old new : FileSystem) (p : Path) (content : ByteArray) : Prop :=
  ∃ location, new.LeadsTo p location ∧ new.content? location = some content ∧
    ∀ other, other ≠ location → new.content? other = old.content? other

theorem AddsFolders.content?_eq {old new : FileSystem} (h : AddsFolders old new) (location : Location) :
    new.content? location = old.content? location := by
  rcases h.entries location with hsame | ⟨hold, hnew⟩
  · rw [content?, content?, hsame]
  · rw [content?, content?, hold, hnew]

section

variable {fs : FileSystem} {location : Location} (hfree : fs.get? location ≠ some .folder)
  (content : ByteArray)

include hfree

/-- A folder is still found when a file is put elsewhere. -/
theorem lookup_put_file {folder : Location} {name : Text}
    (h : fs.lookup folder name = .ok (some .folder)) :
    (fs.put location (.file content)).lookup folder name = .ok (some .folder) := by
  unfold lookup at h ⊢
  split at h
  · cases h
  · next hsize =>
    have hget := Except.ok.inj h
    have hne : folder ++ [name] ≠ location := by
      rintro rfl
      exact hfree hget
    rw [if_neg hsize, get?_put_of_ne fs hne, hget]

/-- So a walk through folders goes where it went. -/
theorem descend_put_file {target : Location} : ∀ {names : List Text} {start : Location},
    fs.descend start names = .ok target →
      (fs.put location (.file content)).descend start names = .ok target
  | [], _, h => h
  | name :: names, start, h => by
    rw [descend] at h ⊢
    split at h
    · next hidle => rw [if_pos hidle, descend_put_file h]
    · next hidle =>
      rw [if_neg hidle]
      split at h
      · next hup => rw [if_pos hup, descend_put_file h]
      · next hup =>
        rw [if_neg hup]
        split at h
        · cases h
        · cases h
        · cases h
        · next hlookup =>
          rw [lookup_put_file hfree content hlookup]
          exact descend_put_file h

theorem locate_put_file {p : Path} {goal : Goal} (h : fs.locate p = .ok goal) :
    (fs.put location (.file content)).locate p = .ok goal := by
  unfold locate at h ⊢
  split at h
  · cases h
  · next hzero =>
    rw [if_neg hzero]
    split at h
    · cases h
    · next hempty =>
      rw [if_neg hempty]
      split at h
      · cases h
      · next hsize =>
        rw [if_neg hsize]
        dsimp only at h ⊢
        split at h
        · cases h
        · next folder hfolder =>
          have hsame := descend_put_file hfree content hfolder
          rw [show (fs.put location (.file content)).here = fs.here from rfl, hsame]
          exact h

end

/-- Writing puts a file where the path leads, in place of what is no folder. -/
theorem write_eq_ok {fs new : FileSystem} {p : Path} {content : ByteArray}
    (h : fs.write p content = .ok new) : ∃ folder name,
      fs.locate p = .ok (.name folder name false) ∧ ¬ nameMax < name.byteSize ∧
        fs.get? (folder ++ [name]) ≠ some .folder ∧
        new = fs.put (folder ++ [name]) (.file content) := by
  unfold write at h
  split at h
  · cases h
  · cases h
  · next folder name slash hlocate =>
    split at h
    · cases h
    · next hslash =>
      rw [Bool.eq_false_iff.mpr hslash] at hlocate
      unfold lookup at h
      by_cases hsize : nameMax < name.byteSize
      · rw [if_pos hsize] at h
        cases h
      · rw [if_neg hsize] at h
        refine ⟨folder, name, hlocate, hsize, ?_, ?_⟩
        · intro hfolder
          rw [hfolder] at h
          cases h
        · split at h
          · cases h
          · cases h
          · exact (Except.ok.inj h).symm

/-- What is written is read back. -/
theorem read_write {fs new : FileSystem} {p : Path} {content : ByteArray}
    (h : fs.write p content = .ok new) : new.read p = .ok content := by
  obtain ⟨folder, name, hlocate, hsize, hfree, rfl⟩ := write_eq_ok h
  have hfile := get?_put fs (List.append_ne_nil_of_right_ne_nil folder (List.cons_ne_nil name []))
    (.file content)
  rw [read, locate_put_file hfree content hlocate]
  dsimp only
  rw [lookup, if_neg hsize, hfile]
  rfl

/-- Behind new folders, a writing changes the one file. -/
theorem AddsFolders.onlyWrites {old between new : FileSystem} {p : Path} {content : ByteArray}
    (hadds : AddsFolders old between) (h : between.write p content = .ok new) :
    OnlyWrites old new p content := by
  obtain ⟨folder, name, hlocate, -, hfree, rfl⟩ := write_eq_ok h
  refine ⟨folder ++ [name], ⟨folder, name, locate_put_file hfree content hlocate, rfl⟩, ?_, ?_⟩
  · rw [content?, get?_put between (List.append_ne_nil_of_right_ne_nil folder (List.cons_ne_nil name []))]
  · intro other hne
    rw [← hadds.content?_eq, content?, content?, get?_put_of_ne between hne]

end FileSystem

/-! ### Runs -/

namespace Workspace

/-- A run of one shader that fails prints nothing and leaves every file as it was. One that succeeds has a
    result, the text that the request asks for, and leaves it in one place: it is printed and the files
    stay as they are, or it is written to the output alone, from where it can be read, and nothing is
    printed. -/
theorem run_single (single : Single) (files : FileSystem) :
    (∀ failure w, run (.single single) files = (.error failure, w) →
      w.printed = [] ∧ ∀ location, w.files.content? location = files.content? location) ∧
    ∀ w, run (.single single) files = (.ok (), w) → ∃ result, single.Yields files result ∧
      match single.output with
      | none => w.printed = result ∧ w.files = files
      | some path => w.printed = [] ∧ readText w.files path = .ok result ∧
          files.OnlyWrites w.files path result.toBytes := by
  have hrun : ∀ {answer after text}, Acts (runSingle host single).run files answer after text →
      run (.single single) files = (answer, ⟨after, text⟩) := fun hacts => hacts []
  rcases delivers_runSingle single files with
    ⟨failure, hacts⟩ | ⟨result, answer, after, text, hyields, hacts, hdelivered⟩
  · rw [hrun hacts]
    refine ⟨?_, by rintro _ ⟨⟩⟩
    rintro _ _ ⟨⟩
    exact ⟨rfl, fun _ => rfl⟩
  · rw [hrun hacts]
    generalize single.output = output at hdelivered ⊢
    cases hdelivered with
    | printed =>
      refine ⟨by rintro _ _ ⟨⟩, ?_⟩
      rintro _ ⟨⟩
      exact ⟨result, hyields, rfl, rfl⟩
    | @written path between after hadds hwrite =>
      refine ⟨by rintro _ _ ⟨⟩, ?_⟩
      rintro _ ⟨⟩
      exact ⟨result, hyields, rfl, readText_of_read (FileSystem.read_write hwrite),
        hadds.onlyWrites hwrite⟩
    | refused hadds =>
      refine ⟨?_, by rintro _ ⟨⟩⟩
      rintro _ _ ⟨⟩
      exact ⟨rfl, hadds.content?_eq⟩

/-- A shader beside a file with a definition. -/
def shaderAndDefines : FileSystem where
  entries := [(["a.vert".toList], .file (Text.toBytes "void main() \x7b\x7d".toList)),
    (["d.glsl".toList], .file (Text.toBytes "#define MULTIVIEW\n".toList))]
  here := []

/-- A request for the shader with both definitions, and with an output. -/
def withDefines (output : Path) : Single :=
  ⟨some (.file "a.vert".toList), .vertex, .gles3, ["FOG".toList], some "d.glsl".toList, some output⟩

/-- An output in a folder that is made for it, and one below a file. -/
theorem run_single_outputs :
    ((run (.single (withDefines "out/a.vert".toList)) shaderAndDefines).1 = .ok () ∧
      ∃ result, (withDefines "out/a.vert".toList).Yields shaderAndDefines result ∧
        shaderAndDefines.OnlyWrites
          (run (.single (withDefines "out/a.vert".toList)) shaderAndDefines).2.files
          "out/a.vert".toList result.toBytes) ∧
    (run (.single (withDefines "a.vert/b".toList)) shaderAndDefines).1 =
        .error (.io "a.vert".toList .alreadyExists) ∧
      ∀ location,
        (run (.single (withDefines "a.vert/b".toList)) shaderAndDefines).2.files.content? location =
          shaderAndDefines.content? location := by
  have hok : (run (.single (withDefines "out/a.vert".toList)) shaderAndDefines).1 = .ok () := by
    decide +kernel
  have herror : (run (.single (withDefines "a.vert/b".toList)) shaderAndDefines).1 =
      .error (.io "a.vert".toList .alreadyExists) := by
    decide +kernel
  obtain ⟨result, hyields, -, -, hwrites⟩ :=
    (run_single (withDefines "out/a.vert".toList) shaderAndDefines).2 _ (Prod.ext hok rfl)
  exact ⟨⟨hok, result, hyields, hwrites⟩, herror,
    ((run_single (withDefines "a.vert/b".toList) shaderAndDefines).1 _ _ (Prod.ext herror rfl)).2⟩

end Workspace

end Shading
