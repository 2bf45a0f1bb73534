import Shading.Token

/-!
    Edits of a text.

    An edit replaces the stretch between two byte positions. Edits that are sorted by position and do
    not overlap are made in one pass; everything outside their stretches is kept. -/

namespace Shading

/-- Replace what stands from position `start` to position `stop`. -/
structure Edit where
  start : Nat
  stop : Nat
  text : Text
  deriving DecidableEq, Repr

/-- Make the edits in what remains of a text behind position `done`. -/
def spliceFrom (done : Nat) : List Edit → Text → Text
  | [], rest => rest
  | e :: edits, rest =>
    rest.takeBytes (e.start - done) ++ e.text ++
      spliceFrom e.stop edits (rest.dropBytes (e.stop - done))

/-- Make sorted edits that do not overlap. -/
def splice (edits : List Edit) (s : Text) : Text := spliceFrom 0 edits s

/-- Write something else in place of a token. -/
def Token.replacedBy (t : Token) (new : String) : Edit := ⟨t.start, t.stop, new.toList⟩

/-- Write something in front of a token. -/
def Token.precededBy (t : Token) (new : String) : Edit := ⟨t.start, t.start, new.toList⟩

@[simp] theorem splice_nil (s : Text) : splice [] s = s := rfl

end Shading
