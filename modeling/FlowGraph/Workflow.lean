import FlowGraph.Interner
import FlowGraph.Workflow.Id

/-!
The loaded workflow: nodes, ports, triggers and edges under typed ids, with all
raw ids interned and with a table from the ident of every declaration to its id.
The endpoints of an edge stay idents, since they need not be declared.
-/

namespace FlowGraph

structure Node where
  ident : IdentId
  label : NameId
  /-- The ways out of the node, in order of declaration. -/
  ports : List PortId
  /-- The port that is taken unconditionally, if there is one. -/
  defaultPort : Option PortId
  deriving DecidableEq

structure Port where
  ident : IdentId
  node : NodeId
  name : NameId
  deriving DecidableEq

/-- A declared entry that is not a node. -/
structure Trigger where
  ident : IdentId
  label : NameId
  deriving DecidableEq

/-- A directed edge between raw ids, which may or may not be declared. -/
structure Edge where
  ident : IdentId
  sourceNode : IdentId
  sourcePort : Option IdentId
  targetNode : IdentId
  targetPort : Option IdentId
  deriving DecidableEq

/-- Keys from idents to what they declare. -/
abbrev IdentTable (Id : Type) := Std.TreeMap Nat Id

structure Workflow where
  /-- The raw ids of the document: entrypoint, triggers, nodes, ports and edges. -/
  idents : Interner UInt32.size UInt64.size
  /-- The labels of triggers and nodes and the names of ports. -/
  names : Interner UInt16.size UInt32.size
  nodes : Arena NodeId Node
  ports : Arena PortId Port
  triggers : Arena TriggerId Trigger
  edges : Arena EdgeId Edge
  nodeTable : IdentTable NodeId
  portTable : IdentTable PortId
  triggerTable : IdentTable TriggerId
  entrypoint : Option IdentId

namespace Workflow

def empty : Workflow :=
  { idents := .empty, names := .empty, nodes := .empty, ports := .empty, triggers := .empty
    edges := .empty, nodeTable := ∅, portTable := ∅, triggerTable := ∅, entrypoint := none }

/-! ### Looking up idents -/

/-- The ident of a raw id that occurs in the document. -/
def ident? (workflow : Workflow) (id : String) : Option IdentId :=
  (workflow.idents.lookup? id).map IdentId.mk

def lookupNode? (workflow : Workflow) (ident : IdentId) : Option NodeId :=
  workflow.nodeTable[ident.number]?

def lookupPort? (workflow : Workflow) (ident : IdentId) : Option PortId :=
  workflow.portTable[ident.number]?

def lookupTrigger? (workflow : Workflow) (ident : IdentId) : Option TriggerId :=
  workflow.triggerTable[ident.number]?

def isEntrypoint (workflow : Workflow) (ident : IdentId) : Bool :=
  workflow.entrypoint == some ident

def findNode? (workflow : Workflow) (id : String) : Option NodeId :=
  (workflow.ident? id).bind workflow.lookupNode?

def findPort? (workflow : Workflow) (id : String) : Option PortId :=
  (workflow.ident? id).bind workflow.lookupPort?

def findTrigger? (workflow : Workflow) (id : String) : Option TriggerId :=
  (workflow.ident? id).bind workflow.lookupTrigger?

/-! ### Parts of the workflow -/

def node? (workflow : Workflow) (node : NodeId) : Option Node := workflow.nodes.get? node

def port? (workflow : Workflow) (port : PortId) : Option Port := workflow.ports.get? port

def trigger? (workflow : Workflow) (trigger : TriggerId) : Option Trigger :=
  workflow.triggers.get? trigger

def edge? (workflow : Workflow) (edge : EdgeId) : Option Edge := workflow.edges.get? edge

def hasTriggers (workflow : Workflow) : Bool := !workflow.triggers.isEmpty

def portsOf (workflow : Workflow) (node : NodeId) : List PortId :=
  match workflow.node? node with
  | some entry => entry.ports
  | none => []

def defaultPortOf? (workflow : Workflow) (node : NodeId) : Option PortId :=
  (workflow.node? node).bind Node.defaultPort

/-- Whether a node can be left without naming a port: it has a default port, or
no ports at all. -/
def hasDefaultExit (workflow : Workflow) (node : NodeId) : Bool :=
  (workflow.defaultPortOf? node).isSome || (workflow.portsOf node).isEmpty

/-! ### Texts -/

def identText? (workflow : Workflow) (ident : IdentId) : Option String :=
  (workflow.idents.get ident.number).toOption

def nameText? (workflow : Workflow) (name : NameId) : Option String :=
  (workflow.names.get name.number).toOption

def nodeLabel? (workflow : Workflow) (node : NodeId) : Option String :=
  (workflow.node? node).bind fun entry => workflow.nameText? entry.label

def portName? (workflow : Workflow) (port : PortId) : Option String :=
  (workflow.port? port).bind fun entry => workflow.nameText? entry.name

def triggerLabel? (workflow : Workflow) (trigger : TriggerId) : Option String :=
  (workflow.trigger? trigger).bind fun entry => workflow.nameText? entry.label

/-- The raw id of an edge, as shown in messages. -/
def edgeText (workflow : Workflow) (edge : EdgeId) : String :=
  ((workflow.edge? edge).bind fun entry => workflow.identText? entry.ident).getD "<unknown>"

end Workflow

end FlowGraph
