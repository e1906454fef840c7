import Mustache.Render.Renderer

/-!
# Sessions

A session keeps a renderer and the trees of templates under names of the user's choice, so that a
template is parsed once and rendered many times.  A step that fails leaves the session as it was.
-/

namespace Mustache

/-- A renderer and parsed templates under names. -/
structure Session where
  renderer : Renderer := {}
  templates : Fields (List Node) := []

namespace Session

/-- Another renderer; the templates stay. -/
def reset (s : Session) (renderer : Renderer) : Session := { s with renderer := renderer }

/-- Another bound on nested partials. -/
def setMaxDepth (s : Session) (maxDepth : Option Int) : Session :=
  { s with renderer := { s.renderer with maxDepth := maxDepth } }

/-- Other partials. -/
def setPartials (s : Session) (partials : Value) : Session :=
  { s with renderer := { s.renderer with partials := partials } }

/-- Parses a template and keeps its tree under a name. -/
def parseAs (s : Session) (name template : Text) (delimiter : Delimiter := .braces) :
    Run (List Node × Session) := do
  let nodes ← parse template delimiter
  return (nodes, { s with templates := Fields.put name nodes s.templates })

/-- Renders the template under a name; there is none under an unknown name. -/
def renderNamed (s : Session) (name : Text) (scope : Scope) : Run Text :=
  s.renderer.render ((s.templates.lookup name).getD []) scope

end Session

end Mustache
