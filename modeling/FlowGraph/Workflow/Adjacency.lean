import FlowGraph.Workflow

/-!
Which edges leave what. Edges are told apart by their raw ids alone, whether or
not they resolve: an edge that names a source port leaves that port, and any
other edge leaves its source node.
-/

namespace FlowGraph.Workflow

def edgesWhere (workflow : Workflow) (test : Edge → Bool) : List EdgeId :=
  (workflow.edges.enumerate.filter fun entry => test entry.2).map Prod.fst

/-- Whether an edge leaves an entry: a declared trigger or, if no trigger is
declared, the structural entrypoint. -/
def isEntryEdge (workflow : Workflow) (edge : Edge) : Bool :=
  if workflow.hasTriggers then
    (workflow.lookupTrigger? edge.sourceNode).isSome
  else
    workflow.isEntrypoint edge.sourceNode

def entryEdges (workflow : Workflow) : List EdgeId :=
  workflow.edgesWhere workflow.isEntryEdge

def edgesThroughPort (workflow : Workflow) (port : PortId) : List EdgeId :=
  match workflow.port? port with
  | some entry => workflow.edgesWhere fun edge => edge.sourcePort == some entry.ident
  | none => []

def portlessEdges (workflow : Workflow) (node : NodeId) : List EdgeId :=
  match workflow.node? node with
  | some entry => workflow.edgesWhere fun edge =>
      edge.sourcePort.isNone && edge.sourceNode == entry.ident
  | none => []

/-- The edges that leave a node: port by port in order of declaration, then those
that name no port. -/
def outgoing (workflow : Workflow) (node : NodeId) : List EdgeId :=
  (workflow.portsOf node).flatMap workflow.edgesThroughPort ++ workflow.portlessEdges node

/-- Whether any edge of the workflow goes from one node to the other. -/
def hasLink (workflow : Workflow) (source target : NodeId) : Bool :=
  match workflow.node? source, workflow.node? target with
  | some sourceEntry, some targetEntry =>
      workflow.edges.toList.any fun edge =>
        edge.sourceNode == sourceEntry.ident && edge.targetNode == targetEntry.ident
  | _, _ => false

end FlowGraph.Workflow
