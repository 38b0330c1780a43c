import FlowGraph.Compilation
import FlowGraph.Realization

/-!
Expressions as graph source text: `Label`, `Label.Ports.name`, `a >> b` and
`{a, b}`. A set right behind another one is wrapped in `Graph.from_set`. Sequences
are written without parentheses, since they lean to the left.
-/

namespace FlowGraph

structure MissingText where
  leaf : Expr
  deriving DecidableEq

def MissingText.message (_missing : MissingText) : String := "missing label or port name"

structure RenderedGraphs where
  /-- The main expression; nothing if it is empty. -/
  main : Option String
  components : List String
  deriving DecidableEq

namespace GraphText

def require (leaf : Expr) : Option String → Rendering Unit MissingText String
  | some text => pure text
  | none => throw (.rendering ⟨leaf⟩)

def ownerLabel? (workflow : Workflow) : Reference → Option String
  | .node node => workflow.nodeLabel? node
  | .port node _ => workflow.nodeLabel? node
  | .trigger trigger => workflow.triggerLabel? trigger

def portText (label name : String) : String := label ++ ".Ports." ++ name

def sequenceText (first second : String) : String := first ++ " >> " ++ second

def setText (members : List String) (wrapped : Bool) : String :=
  let text := "\x7b" ++ ", ".intercalate members ++ "\x7d"
  if wrapped then "Graph.from_set(" ++ text ++ ")" else text

def renderer (workflow : Workflow) : Renderer Unit MissingText String :=
  { reference := fun reference =>
      require (.ofReference reference) (ownerLabel? workflow reference)
    port := fun node port => do
      let label ← require (.port node port) (workflow.nodeLabel? node)
      let name ← require (.port node port) (workflow.portName? port)
      pure (portText label name)
    sequence := fun first second => pure (sequenceText first second)
    set := fun members wrapped => pure (setText members wrapped) }

def render (workflow : Workflow) (expr : Expr) : Except (RealizeError MissingText) String :=
  ((renderer workflow).run expr ()).1

/-- The text of the main expression, which is nothing if the expression is empty. -/
def renderMain (workflow : Workflow) (main : Expr) :
    Except (RealizeError MissingText) (Option String) :=
  if main.isEmpty then .ok none else (render workflow main).map some

def renderAll (workflow : Workflow) (compilation : Compilation) :
    Except (RealizeError MissingText) RenderedGraphs := do
  let main ← renderMain workflow compilation.main
  let components ← compilation.components.mapM (render workflow)
  pure { main := main, components := components }

end GraphText

end FlowGraph
