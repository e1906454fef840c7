import Mustache.Render.Scope
import Mustache.Template.Build
import Mustache.Text.Markup

/-!
# Rendering

A renderer walks over the tree of a template from left to right and joins the texts of its nodes.
Data that is missing renders as nothing and is no fault.  A partial is parsed afresh wherever it is
named, so the tree gives no bound on how deep partials nest: expansion goes by an allowance, and a
run that uses it up ends with `Error.endless`.
-/

namespace Mustache

/-- How a partial is rendered: its name, the margin of its lines, and the scope around it. -/
abbrev Expander := Text → Text → Scope → Run Text

mutual

/-- The text of a node. -/
def Node.render (expand : Expander) : Node → Scope → Run Text
  | .text content, _ => pure content
  | .field name escaped, scope =>
    pure (if escaped then Text.escapeMarkup (scope.fieldText name) else scope.fieldText name)
  | .block name inverted children, scope =>
    Traced.concatMap (fun inner => renderAll expand children inner)
      (scope.bodies inverted (scope.sectionValue name))
  | .comment _, _ => pure []
  | .partialRef name indentation, scope => expand name indentation scope
  | .foreign kind, _ => Traced.fail (.foreignNode kind)

/-- The texts of nodes, joined. -/
def renderAll (expand : Expander) : List Node → Scope → Run Text
  | [], _ => pure []
  | node :: rest, scope => do
    let front ← node.render expand scope
    let back ← renderAll expand rest scope
    return front ++ back

end

/-- What a rendering needs beside the template and its data. -/
structure Renderer where
  /-- The texts of the partials, under their names. -/
  partials : Value := .empty
  /-- How many expansions of partials may nest; there is no bound without it. -/
  maxDepth : Option Int := none

namespace Renderer

/-- The text of a partial. -/
def partialText? (r : Renderer) (name : Text) : Option Text :=
  (r.partials.lookup name).bind Value.text?

/-- Is an expansion with `depth` expansions around it one too many? -/
def exceeds (r : Renderer) (depth : Nat) : Option Int :=
  r.maxDepth.filter fun limit => limit ≤ depth

/-- The text of a partial in a scope, with `depth` expansions around it and an allowance for
more. -/
def expand (r : Renderer) (allowance depth : Nat) (name indentation : Text) (scope : Scope) :
    Run Text :=
  match r.partialText? name with
  | none => do
    Traced.tell (.missing name)
    return []
  | some text =>
    match r.exceeds depth with
    | some limit => Traced.fail (.depthExceeded name limit)
    | none =>
      match allowance with
      | 0 => Traced.fail .endless
      | allowance + 1 => do
        Traced.tell (.expanded name depth)
        let nodes ← parse (Text.indent indentation text)
        renderAll (r.expand allowance (depth + 1)) nodes scope

/-- The text of nodes in a scope, with an allowance for nested partials. -/
def renderWithin (r : Renderer) (allowance : Nat) (nodes : List Node) (scope : Scope) : Run Text :=
  renderAll (r.expand allowance 0) nodes scope

/-- The text of a template in a scope, with an allowance for nested partials. -/
def renderTemplate (r : Renderer) (allowance : Nat) (template : Text) (scope : Scope) :
    Run Text := do
  let nodes ← parse template
  r.renderWithin allowance nodes scope

/-- How many partials may nest in one rendering, whatever limit is set. -/
def nestingAllowance : Nat := 200

/-- The text of nodes in a scope. -/
def render (r : Renderer) (nodes : List Node) (scope : Scope) : Run Text :=
  r.renderWithin nestingAllowance nodes scope

end Renderer

/-- The text of a template for the data `context`. -/
def render (template : Text) (context : Value) (r : Renderer := {}) : Run Text := do
  let nodes ← parse template
  r.render nodes { root := context }

end Mustache
