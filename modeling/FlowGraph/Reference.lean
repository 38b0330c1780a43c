import FlowGraph.Workflow.Id

/-!
What an expression can point at: a node left through its default port, one of a
node's other ports, or a trigger.
-/

namespace FlowGraph

/-- The identity of something that a link can leave. -/
inductive Reference where
  /-- A node, left through its default port. -/
  | node (node : NodeId)
  /-- A port of a node other than its default port. -/
  | port (node : NodeId) (port : PortId)
  | trigger (trigger : TriggerId)
  deriving DecidableEq

namespace Reference

/-- The node or trigger that a reference belongs to: a port belongs to its node. -/
def owner : Reference → Reference
  | .node nodeId => .node nodeId
  | .port nodeId _ => .node nodeId
  | .trigger triggerId => .trigger triggerId

def node? : Reference → Option NodeId
  | .node nodeId => some nodeId
  | .port nodeId _ => some nodeId
  | .trigger _ => none

end Reference

end FlowGraph
