import Shading.Edit
import Shading.Text.Line

/-!
    Extension directives.

    A directive `#extension NAME : BEHAVIOR` begins with a `#` that is the first token on its line, and
    ends with that line; a directive in a comment is none. Pruning deletes the directives that enable or
    require one of the given extensions, each through its newline, and leaves all others. What stands
    on the line in front of a directive is kept unless it is blank; it can only be the end of a comment. -/

namespace Shading

/-- A directive `#extension name : behavior` with the stretch of text that pruning would delete. -/
structure Pragma where
  name : Text
  behavior : Text
  start : Nat
  stop : Nat
  deriving DecidableEq, Repr

namespace Pragma

/-- The stretch of a directive that begins at a position: to the end of the line, and from its
    beginning too if only blanks stand in front. -/
def stretch (s : Text) (start : Nat) : Nat × Nat :=
  let lead := (s.takeBytes start).lastLine
  (if lead.all isBlank then start - lead.byteSize else start,
    start + (s.dropBytes start).firstLine.byteSize)

/-- The name and the behavior that a directive states, given the tokens behind its `#`. -/
def stated? (behind : List Token) : Option (Text × Text) :=
  match behind.takeWhile (!·.lineStart) with
  | keyword :: name :: colon :: behavior :: _ =>
    if keyword.isWord "extension" && name.kind == .word && colon.isMark ':'
        && behavior.kind == .word then
      some (name.text, behavior.text)
    else none
  | _ => none

/-- The directives among tokens of a text. -/
def among (s : Text) : List Token → List Pragma
  | [] => []
  | t :: ts =>
    if t.isMark '#' && t.lineStart then
      match stated? ts with
      | some (name, behavior) =>
        ⟨name, behavior, (stretch s t.start).1, (stretch s t.start).2⟩ :: among s ts
      | none => among s ts
    else among s ts

/-- The behaviors that switch an extension on. -/
def switchedOn : List String := ["enable", "require"]

/-- The directive names one of the extensions. -/
def names (p : Pragma) (extensions : List String) : Bool :=
  extensions.any fun name => name.toList == p.name

/-- The directive states one of the behaviors. -/
def behaves (p : Pragma) (behaviors : List String) : Bool :=
  behaviors.any fun behavior => behavior.toList == p.behavior

/-- The edit that deletes the directive. -/
def deletion (p : Pragma) : Edit := ⟨p.start, p.stop, []⟩

end Pragma

/-- The extension directives of a text. -/
def pragmas (s : Text) : List Pragma := Pragma.among s (tokens s)

/-- The text has a directive for the extension with one of the behaviors. -/
def hasExtension (extension : String) (behaviors : List String) (s : Text) : Bool :=
  (pragmas s).any fun p => p.names [extension] && p.behaves behaviors

/-- Delete the directives that switch one of the extensions on. -/
def pruneExtensions (extensions : List String) (s : Text) : Text :=
  let pruned := (pragmas s).filter fun p => p.names extensions && p.behaves Pragma.switchedOn
  splice (pruned.map Pragma.deletion) s

end Shading
