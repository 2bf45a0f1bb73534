import Shading.Text.Blank

/-!
    Built-in shaders, in the neutral syntax. -/

namespace Shading

namespace BuiltinShaders

/-- Lines as a text, each with its newline. -/
def unlines (lines : List String) : String := String.join (lines.map (· ++ "\n"))

/-- A blit over the whole screen, vertex stage. -/
def blitVertex : String :=
  unlines
    ["precision highp float;",
     "",
     "// Inputs",
     "attribute vec2 position;",
     "",
     "// Outputs",
     "varying vec2 vUV;",
     "",
     "const vec2 madd = vec2(0.5, 0.5);",
     "",
     "void main(void) \x7b",
     "    vUV = position * madd + madd;",
     "    gl_Position = vec4(position, 0.0, 1.0);",
     "\x7d"]

/-- A blit over the whole screen, fragment stage, with one texture. -/
def blitFragment : String :=
  unlines
    ["precision mediump float;",
     "",
     "varying vec2 vUV;",
     "uniform sampler2D textureSampler;",
     "",
     "void main(void) \x7b",
     "    gl_FragColor = texture2D(textureSampler, vUV);",
     "\x7d"]

/-- A sky box, fragment stage, with or without an explicit level of detail. -/
def skyboxFragment : String :=
  unlines
    ["#extension GL_EXT_shader_texture_lod : enable",
     "precision highp float;",
     "",
     "varying vec3 vDirection;",
     "uniform samplerCube reflectionSampler;",
     "uniform float lod;",
     "",
     "void main(void) \x7b",
     "#ifdef LOD_SAMPLING",
     "    vec4 color = textureCubeLodEXT(reflectionSampler, vDirection, lod);",
     "#else",
     "    vec4 color = textureCube(reflectionSampler, vDirection);",
     "#endif",
     "    gl_FragColor = vec4(color.rgb, 1.0);",
     "\x7d"]

/-- A pass that fills two render targets, fragment stage. -/
def gbufferFragment : String :=
  unlines
    ["#extension GL_EXT_draw_buffers : require",
     "precision highp float;",
     "",
     "varying vec3 vNormal;",
     "varying vec2 vUV;",
     "uniform sampler2D albedoSampler;",
     "",
     "void main(void) \x7b",
     "    gl_FragData[0] = texture2D(albedoSampler, vUV);",
     "    gl_FragData[1] = vec4(normalize(vNormal) * 0.5 + 0.5, 1.0);",
     "\x7d"]

/-- The built-in shaders with their names. -/
def all : List (String × String) :=
  [("blit.vert", blitVertex), ("blit.frag", blitFragment), ("skybox.frag", skyboxFragment),
   ("gbuffer.frag", gbufferFragment)]

/-- The built-in shader of a name. -/
def named? (name : Text) : Option Text :=
  (all.find? fun shader => shader.1.toList == name).map (·.2.toList)

end BuiltinShaders

end Shading
