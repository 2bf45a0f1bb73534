import Shading.Edit
import Shading.Token.Shape

/-!
    Entry points and fragment outputs.

    An entry point is a place where `void main (` stands; a shader that chooses among several by
    conditional directives has several. A shader declares its output itself when it holds
    `layout(location = 0) out`. -/

namespace Shading

/-- The beginning of an entry point. -/
def entryShape : List Shape := [.word "void", .word "main", .mark '(']

/-- The beginning of an output declaration. -/
def outputShape : List Shape :=
  [.word "layout", .mark '(', .word "location", .mark '=', .number "0", .mark ')', .word "out"]

/-- The first tokens of the entry points. -/
def entryPoints (s : Text) : List Token := occurrences entryShape (tokens s)

/-- The text declares an output at location 0. -/
def hasOutputDeclaration (s : Text) : Bool := !(occurrences outputShape (tokens s)).isEmpty

/-- Write something in front of every entry point. -/
def insertBeforeEntryPoints (new : String) (s : Text) : Text :=
  splice ((entryPoints s).map (·.precededBy new)) s

end Shading
