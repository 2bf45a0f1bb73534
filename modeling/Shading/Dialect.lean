import Shading.Rules
import Shading.Text.Quoted

/-!
    Shading dialects.

    Shaders are written in the neutral syntax of GLSL ES 1.00, with `attribute`, `varying`, `texture2D`
    and `gl_FragColor`. A dialect adapts such a shader to what one family of compilers accepts: first
    its declarations, line by line, then the whole text. Adapting never fails; what no rule knows stays
    as it is. The neutral dialect keeps every text. -/

namespace Shading

/-- A dialect: the neutral one, or one given by rules. -/
inductive Dialect where
  | neutral
  | ruled (name : String) (rules : Rules)
  deriving DecidableEq, Repr

namespace Dialect

/-- GLSL ES 1.00, the neutral syntax itself. -/
def glsl100 : Dialect := .neutral

/-- GLSL ES 3.00. -/
def glsl300es : Dialect := .ruled "glsl300es" .glsl300es

/-- Vulkan GLSL 4.50. -/
def glsl450 : Dialect := .ruled "glsl450" .glsl450

/-- The name of a dialect. -/
def name : Dialect → String
  | .neutral => "glsl100"
  | .ruled name _ => name

/-- The built-in dialects. -/
def builtin : List Dialect := [glsl100, glsl300es, glsl450]

/-- The built-in dialect of a name. -/
def named? (name : String) : Option Dialect := builtin.find? (·.name == name)

/-- What stands for the processing by a dialect in a listing. -/
def describe (dialect : Dialect) : String :=
  "ShaderProcessor \x7b dialect: " ++ String.ofList (Text.quoted dialect.name.toList) ++ " \x7d"

/-- Adapt a line that declares an attribute. -/
def adaptAttribute (dialect : Dialect) (line : Text) : Text :=
  match dialect with
  | .neutral => line
  | .ruled _ rules => replaceWord "attribute" rules.attributeKeyword line

/-- Adapt a line that declares a varying. -/
def adaptVarying (dialect : Dialect) (stage : Stage) (line : Text) : Text :=
  match dialect with
  | .neutral => line
  | .ruled _ rules => replaceWord "varying" (rules.varyingKeyword stage) line

/-- Adapt a line, whatever it holds. -/
def adaptLine (dialect : Dialect) (stage : Stage) (line : Text) : Text :=
  if declaresAttribute line then dialect.adaptAttribute line
  else if declaresVarying line then dialect.adaptVarying stage line
  else line

/-- Adapt the declarations of a shader. -/
def adaptDeclarations (dialect : Dialect) (stage : Stage) (s : Text) : Text :=
  mapCode (dialect.adaptLine stage) s

/-- Adapt the rest of a shader, once its declarations are adapted. -/
def finish (dialect : Dialect) (defines : DefineSet) (stage : Stage) (s : Text) : Text :=
  match dialect with
  | .neutral => s
  | .ruled _ rules => rules.finish defines stage s

/-- Adapt a shader. -/
def adapt (dialect : Dialect) (defines : DefineSet) (stage : Stage) (s : Text) : Text :=
  dialect.finish defines stage (dialect.adaptDeclarations stage s)

/-- The neutral dialect keeps every line. -/
theorem adaptLine_neutral (stage : Stage) (line : Text) : neutral.adaptLine stage line = line := by
  simp [adaptLine, adaptAttribute, adaptVarying]

/-- The neutral dialect keeps all declarations. -/
theorem adaptDeclarations_neutral (stage : Stage) (s : Text) :
    neutral.adaptDeclarations stage s = s := by
  have hline : neutral.adaptLine stage = fun line => line := funext (adaptLine_neutral stage)
  rw [adaptDeclarations, hline, mapCode_id]

end Dialect

end Shading
