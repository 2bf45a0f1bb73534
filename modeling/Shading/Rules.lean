import Shading.Declaration
import Shading.DefineSet
import Shading.Output
import Shading.Pragma
import Shading.Rename
import Shading.Stage

/-!
    Rule tables.

    A rule table holds all that sets one dialect apart: the keywords that replace `attribute` and
    `varying`, the extensions that the dialect has built in, the renamed functions and variables, the
    declaration of a fragment output, and what a multiview vertex shader begins with. Treating a whole
    shader by a table looks at the untouched text first, then prunes, renames and inserts. -/

namespace Shading

/-- The rules of one dialect. -/
structure Rules where
  /-- What replaces `attribute`. -/
  attributeKeyword : String
  /-- What replaces `varying` in a vertex shader. -/
  vertexVaryingKeyword : String
  /-- What replaces `varying` in a fragment shader. -/
  fragmentVaryingKeyword : String
  /-- The extension of shaders that declare their render targets themselves. -/
  multiTargetExtension : String
  /-- The extensions that need no directive in this dialect. -/
  prunedExtensions : List String
  /-- Functions with another name in this dialect, renamed where they are called. -/
  intrinsicCalls : List Rename
  /-- Built-in variables with another name, in every stage. -/
  builtinRenames : List Rename
  /-- Outputs with another name, in the fragment stage. -/
  fragmentOutputs : List Rename
  /-- The declaration for a fragment shader with a single output. -/
  outputDeclaration : String
  /-- The symbol that asks for multiview. -/
  multiviewSymbol : String
  /-- What a multiview vertex shader begins with. -/
  multiviewHeader : String
  deriving DecidableEq, Repr

namespace Rules

/-- The rules of GLSL ES 3.00, which core profiles of OpenGL take as well. -/
def glsl300es : Rules where
  attributeKeyword := "in"
  vertexVaryingKeyword := "out"
  fragmentVaryingKeyword := "in"
  multiTargetExtension := "GL_EXT_draw_buffers"
  prunedExtensions :=
    ["GL_OVR_multiview2", "GL_OES_standard_derivatives", "GL_EXT_shader_texture_lod",
     "GL_EXT_frag_depth", "GL_EXT_draw_buffers"]
  intrinsicCalls :=
    [⟨"texture2D", "texture"⟩, ⟨"textureCube", "texture"⟩, ⟨"texture2DProj", "textureProj"⟩,
     ⟨"texture2DLodEXT", "textureLod"⟩, ⟨"textureCubeLodEXT", "textureLod"⟩]
  builtinRenames := []
  fragmentOutputs :=
    [⟨"gl_FragColor", "glFragColor"⟩, ⟨"gl_FragData", "glFragData"⟩,
     ⟨"gl_FragDepthEXT", "gl_FragDepth"⟩]
  outputDeclaration := "layout(location = 0) out vec4 glFragColor;\n"
  multiviewSymbol := "MULTIVIEW"
  multiviewHeader := "#extension GL_OVR_multiview2 : require\nlayout (num_views = 2) in;\n"

/-- The rules of Vulkan GLSL 4.50. The render pass knows the number of views there, so the header only
    requires the extension. -/
def glsl450 : Rules :=
  { glsl300es with
    builtinRenames := [⟨"gl_ViewID_OVR", "gl_ViewIndex"⟩]
    multiviewHeader := "#extension GL_EXT_multiview : require\n" }

/-- What replaces `varying` in a stage. -/
def varyingKeyword (rules : Rules) : Stage → String
  | .vertex => rules.vertexVaryingKeyword
  | .fragment => rules.fragmentVaryingKeyword

/-- A fragment shader brings its own outputs: it switches multiple targets on or declares one. -/
def hasOwnOutput (rules : Rules) (s : Text) : Bool :=
  hasExtension rules.multiTargetExtension Pragma.switchedOn s || hasOutputDeclaration s

/-- Prune the extensions, then rename the functions and the variables of every stage. -/
def common (rules : Rules) (s : Text) : Text :=
  renameWords rules.builtinRenames
    (renameCalls rules.intrinsicCalls (pruneExtensions rules.prunedExtensions s))

/-- Treat a whole shader whose declarations are already those of the dialect. -/
def finish (rules : Rules) (defines : DefineSet) (stage : Stage) (s : Text) : Text :=
  match stage with
  | .fragment =>
    let renamed := renameWords rules.fragmentOutputs (rules.common s)
    if rules.hasOwnOutput s then renamed
    else insertBeforeEntryPoints rules.outputDeclaration renamed
  | .vertex =>
    if defines.contains rules.multiviewSymbol.toList then
      rules.multiviewHeader.toList ++ rules.common s
    else rules.common s

end Rules

end Shading
