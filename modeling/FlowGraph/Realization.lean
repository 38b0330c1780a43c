import FlowGraph.Expr

/-!
Realization hands the parts of an expression to a renderer, from the leaves up
and from left to right, and stops at the first failure. What the renderer did
until then is kept in its state.
-/

namespace FlowGraph

inductive RealizeError (Error : Type) where
  /-- Nothing can be made of the empty expression. -/
  | emptyExpression
  | rendering (error : Error)
  deriving DecidableEq

def RealizeError.message {Error : Type} (describe : Error → String) : RealizeError Error → String
  | .emptyExpression => "Cannot realize an empty expression"
  | .rendering error => describe error

/-- Work of a renderer, which changes its state and may fail. -/
abbrev Rendering (State Error : Type) : Type → Type :=
  ExceptT (RealizeError Error) (StateM State)

structure Renderer (State Error Output : Type) where
  /-- A node left through its default port, or a trigger. -/
  reference : Reference → Rendering State Error Output
  /-- A port of a node other than its default port. -/
  port : NodeId → PortId → Rendering State Error Output
  sequence : Output → Output → Rendering State Error Output
  /-- The outputs of a set's members, joined. The flag tells that the set comes
  right behind another one and has to be marked as a piece of a graph. -/
  set : List Output → Bool → Rendering State Error Output

namespace Renderer

variable {State Error Output : Type} (renderer : Renderer State Error Output)

mutual

def realizeAfter (followsSet : Bool) : Expr → Rendering State Error Output
  | .empty => throw .emptyExpression
  | .node node => renderer.reference (.node node)
  | .trigger trigger => renderer.reference (.trigger trigger)
  | .port node port => renderer.port node port
  | .sequence first second => do
      let firstOutput ← realizeAfter false first
      let secondOutput ← realizeAfter first.isSet second
      renderer.sequence firstOutput secondOutput
  | .set members => do
      let outputs ← realizeMembers members
      renderer.set outputs followsSet

def realizeMembers : List Expr → Rendering State Error (List Output)
  | [] => pure []
  | member :: members => do
      let output ← realizeAfter false member
      let outputs ← realizeMembers members
      pure (output :: outputs)

end

def realize (expr : Expr) : Rendering State Error Output := renderer.realizeAfter false expr

def run (expr : Expr) (state : State) : Except (RealizeError Error) Output × State :=
  (renderer.realize expr).run.run state

end Renderer

end FlowGraph
