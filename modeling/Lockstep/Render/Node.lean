import Lockstep.Render.Unit
import Lockstep.Tree.Node

/-!
# Rendering a node

- `Node.render`: a node of any kind, from where the cursor is.
- `renderUnit`, `renderNode`: a rendering of its own.
-/

namespace Lockstep

open Config Render

/-- Render a node of any kind. -/
def Tree.Node.render (s : Settings) : Tree.Node → Rendering Unit
  | .unit u => u.render s
  | .package p => p.render s
  | .imported i => i.render s
  | .member m => runScript (m.script s)
  | .parameter p => runScript (p.script s)
  | .fragment f => runScript (f.script s)
  | .modifier m => runScript (m.script s)
  | .type t => runScript (t.script s)
  | .name n => runScript (n.script s)
  | .expr e => runScript (e.script s)
  | .stmt t => runScript (t.script s)

namespace Render

/-- How a rendering ended, and what the sink has received. -/
structure Outcome where
  error : Option RenderError
  received : String
  deriving DecidableEq, Repr

/-- Run a rendering from the start of a source. -/
def runFrom (source : String) (accepts : Bool) (x : Rendering Unit) : Outcome :=
  match x (.start source accepts) with
  | .ok _ ctx => ⟨none, ctx.writer.sink.received⟩
  | .error e ctx => ⟨some e, ctx.writer.sink.received⟩

/-- Render a compilation unit. -/
def renderUnit (s : Settings) (source : String) (accepts : Bool) (u : Tree.CompilationUnit) :
    Outcome :=
  runFrom source accepts (Tree.Node.render s (.unit u))

/-- Render a node from its own place. -/
def renderNode (s : Settings) (source : String) (accepts : Bool) (n : Tree.Node) : Outcome :=
  runFrom source accepts do
    jumpTo n.extent.start
    n.render s

end Render

end Lockstep
