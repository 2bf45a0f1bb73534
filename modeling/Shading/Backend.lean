import Shading.Text.Blank

/-!
    Graphics backends. -/

namespace Shading

/-- The graphics backend that a shader is meant for. -/
inductive Backend where
  | gles2
  | gles3
  | glCore
  | vulkan
  | metal
  deriving DecidableEq, Repr

namespace Backend

/-- The backends in order. -/
def all : List Backend := [.gles2, .gles3, .glCore, .vulkan, .metal]

/-- The name of a backend. -/
def name : Backend → String
  | .gles2 => "gles2"
  | .gles3 => "gles3"
  | .glCore => "glcore"
  | .vulkan => "vulkan"
  | .metal => "metal"

/-- The capitalised name of a backend, as listings of a registry show it. -/
def label : Backend → String
  | .gles2 => "Gles2"
  | .gles3 => "Gles3"
  | .glCore => "GlCore"
  | .vulkan => "Vulkan"
  | .metal => "Metal"

/-- The names by which a user may ask for a backend. -/
def spellings : List (String × Backend) :=
  [("gles2", .gles2), ("webgl1", .gles2), ("webgl", .gles2),
   ("gles3", .gles3), ("webgl2", .gles3),
   ("glcore", .glCore), ("gl", .glCore), ("opengl", .glCore),
   ("vulkan", .vulkan), ("vk", .vulkan),
   ("metal", .metal), ("mtl", .metal)]

/-- The backend that a user asks for; case and surrounding blanks do not matter. -/
def ofText? (s : Text) : Option Backend :=
  (spellings.find? fun spelling => spelling.1.toList == s.trim.lower).map (·.2)

theorem ofText?_name (backend : Backend) : ofText? backend.name.toList = some backend := by
  cases backend <;> decide

end Backend

end Shading
