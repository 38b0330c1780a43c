import FlowGraph.Reference
import FlowGraph.Workflow

/-!
What the raw endpoints of an edge stand for. An edge that cannot be resolved
dangles: this is no error, and its cause is kept for the log alone.
-/

namespace FlowGraph

inductive Origin where
  /-- The structural entry, which no expression points at. -/
  | entrypoint
  | trigger (trigger : TriggerId)
  | node (node : NodeId)
  deriving DecidableEq

structure ResolvedEdge where
  /-- What the edge leaves; nothing if it leaves the structural entry. -/
  source : Option Reference
  target : NodeId
  deriving DecidableEq

inductive DanglingCause where
  | unknownEdge
  | unknownTarget
  | unknownSource
  | unknownSourcePort
  deriving DecidableEq

def DanglingCause.message : DanglingCause → String
  | .unknownEdge => "unknown edge"
  | .unknownTarget => "unknown target"
  | .unknownSource => "unknown source"
  | .unknownSourcePort => "unknown source port"

namespace Workflow

/-- What an ident stands for as the source of an edge. The entrypoint comes
before a trigger of the same id, and a trigger before a node. -/
def origin? (workflow : Workflow) (ident : IdentId) : Option Origin :=
  if workflow.isEntrypoint ident then
    some .entrypoint
  else
    match workflow.lookupTrigger? ident with
    | some trigger => some (.trigger trigger)
    | none => (workflow.lookupNode? ident).map .node

def targetNode? (workflow : Workflow) (ident : IdentId) : Option NodeId :=
  workflow.lookupNode? ident

/-- The reference for leaving a node through a port: the node itself for its
default port or for no port, nothing for a port of another node. -/
def exitThrough? (workflow : Workflow) (node : NodeId) : Option IdentId → Option Reference
  | none => some (.node node)
  | some ident =>
      match workflow.lookupPort? ident with
      | none => none
      | some port =>
          if (workflow.port? port).any fun entry => entry.node == node then
            if workflow.defaultPortOf? node == some port then some (.node node)
            else some (.port node port)
          else
            none

/-- Resolves both ends of an edge. An unknown target is found before anything
about the source. -/
def resolve (workflow : Workflow) (edge : Edge) : Except DanglingCause ResolvedEdge :=
  match workflow.targetNode? edge.targetNode with
  | none => .error .unknownTarget
  | some target =>
      match workflow.origin? edge.sourceNode with
      | none => .error .unknownSource
      | some .entrypoint => .ok { source := none, target := target }
      | some (.trigger trigger) => .ok { source := some (.trigger trigger), target := target }
      | some (.node node) =>
          match workflow.exitThrough? node edge.sourcePort with
          | none => .error .unknownSourcePort
          | some source => .ok { source := some source, target := target }

def resolveEdge (workflow : Workflow) (edge : EdgeId) : Except DanglingCause ResolvedEdge :=
  match workflow.edge? edge with
  | none => .error .unknownEdge
  | some entry => workflow.resolve entry

end Workflow

end FlowGraph
