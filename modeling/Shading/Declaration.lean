import Shading.Edit
import Shading.Text.Line

/-!
    Declarations of attributes and varyings.

    A line declares an attribute when its first token is `attribute`, and a varying when its first token
    is `varying` or when that is its second token and the first is one interpolation qualifier. Lines
    are treated one by one. A line inside a block comment that an earlier line opened is read from
    behind that comment; what belongs to the comment is kept. -/

namespace Shading

/-- The qualifiers that may stand in front of `varying`. -/
def interpolationQualifiers : List String :=
  ["flat", "smooth", "noperspective", "centroid", "invariant"]

/-- The line declares an attribute. -/
def declaresAttribute (line : Text) : Bool :=
  (tokens line).head?.any (·.isWord "attribute")

/-- The line declares a varying. -/
def declaresVarying (line : Text) : Bool :=
  match tokens line with
  | [] => false
  | t :: ts =>
    t.isWord "varying" ||
      (interpolationQualifiers.any t.isWord && ts.head?.any (·.isWord "varying"))

/-- Replace the first token that is the given word. -/
def replaceWord (word new : String) (s : Text) : Text :=
  match (tokens s).find? (·.isWord word) with
  | some t => splice [t.replacedBy new] s
  | none => s

/-- Treat the lines one by one, each without what it carries of an earlier comment. `inComment` says
    whether such a comment is open. -/
def mapLines (f : Text → Text) (inComment : Bool) : List Text → Text
  | [] => []
  | line :: rest =>
    (if inComment then commentRest line ++ f (afterComment line) else f line) ++
      mapLines f (endsInComment inComment line) rest

/-- Treat a text line by line, outside comments that span lines. -/
def mapCode (f : Text → Text) (s : Text) : Text := mapLines f false s.lines

theorem mapLines_id (inComment : Bool) (lines : List Text) :
    mapLines (fun line => line) inComment lines = lines.flatten := by
  induction lines generalizing inComment with
  | nil => rfl
  | cons line rest ih =>
    cases inComment <;> simp [mapLines, ih, commentRest_append_afterComment]

/-- Lines that all stay as they are make up the text again. -/
theorem mapCode_id (s : Text) : mapCode (fun line => line) s = s := by
  rw [mapCode, mapLines_id, Text.flatten_lines]

end Shading
