import FlowGraph.Realization

/-!
A renderer that writes down what it is asked to do. The output of a call is its
number, so the calls alone tell how the expression was put together.
-/

namespace FlowGraph

/-- One call of a renderer. Outputs of earlier calls are given by their numbers. -/
inductive RenderCall where
  | reference (reference : Reference)
  | port (node : NodeId) (port : PortId)
  | sequence (first second : Nat)
  | set (members : List Nat) (wrapped : Bool)
  deriving DecidableEq

structure RenderFault where
  call : Nat
  deriving DecidableEq

def RenderFault.message (fault : RenderFault) : String := s!"renderer failed at call {fault.call}"

namespace Recording

/-- Writes down a call, unless it is the one that fails. -/
def call (failAt : Option Nat) (entry : RenderCall) :
    Rendering (List RenderCall) RenderFault Nat := do
  let calls ← get
  if failAt = some calls.length then
    throw (.rendering ⟨calls.length⟩)
  set (calls ++ [entry])
  pure calls.length

/-- The recording renderer. It fails at the call with the given number, if any. -/
def renderer (failAt : Option Nat) : Renderer (List RenderCall) RenderFault Nat :=
  { reference := fun reference => call failAt (.reference reference)
    port := fun node port => call failAt (.port node port)
    sequence := fun first second => call failAt (.sequence first second)
    set := fun members wrapped => call failAt (.set members wrapped) }

end Recording

end FlowGraph
