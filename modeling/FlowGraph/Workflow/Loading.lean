import FlowGraph.Document
import FlowGraph.Workflow

/-!
Loading a document into a workflow. Identity problems of triggers and nodes are
collected, one per entry, and reported together at the end; an edge is taken as
it is, whether or not its endpoints are declared.

An entry stops at its first problem, but what it has interned and declared until
then stays, so later entries are checked against it.
-/

namespace FlowGraph

inductive EntryKind where
  | trigger
  | node
  | port
  | edge
  deriving DecidableEq

namespace EntryKind

def singular : EntryKind → String
  | .trigger => "trigger"
  | .node => "node"
  | .port => "port"
  | .edge => "edge"

def plural (kind : EntryKind) : String := kind.singular ++ "s"

def capacity : EntryKind → Nat
  | .trigger => UInt8.size - 1
  | .node => UInt16.size - 1
  | .port => UInt16.size - 1
  | .edge => UInt32.size - 1

end EntryKind

inductive LoadError where
  | duplicateId (kind : EntryKind) (id : String)
  /-- The default port is not one of the node's own ports. -/
  | unknownDefaultPort (node port : String)
  /-- The workflow holds as many entries of this kind as it can. -/
  | tooMany (kind : EntryKind)
  | intern (error : InternError)
  deriving DecidableEq

def LoadError.message : LoadError → String
  | .duplicateId kind id => "Duplicate " ++ kind.singular ++ " id: '" ++ id ++ "'"
  | .unknownDefaultPort node port =>
      "Default port '" ++ port ++ "' of node '" ++ node ++ "' is not one of its ports"
  | .tooMany kind =>
      "Too many " ++ kind.plural ++ " in workflow; maximum supported is " ++ toString kind.capacity
  | .intern error => error.message

inductive LoadFailure where
  /-- Some triggers or nodes were refused, in document order and with one error each. -/
  | rejected (errors : List LoadError)
  /-- The entrypoint or an edge did not fit, and loading stopped there. -/
  | stopped (error : LoadError)
  deriving DecidableEq

namespace Workflow

/-! ### Interning -/

def internIdent (workflow : Workflow) (id : String) : Workflow × Except LoadError IdentId :=
  let (idents, result) := workflow.idents.intern id
  ({ workflow with idents := idents }, (result.mapError LoadError.intern).map IdentId.mk)

def internName (workflow : Workflow) (text : String) : Workflow × Except LoadError NameId :=
  let (names, result) := workflow.names.intern text
  ({ workflow with names := names }, (result.mapError LoadError.intern).map NameId.mk)

def internIdent? (workflow : Workflow) :
    Option String → Workflow × Except LoadError (Option IdentId)
  | none => (workflow, .ok none)
  | some id =>
      let (workflow, result) := workflow.internIdent id
      (workflow, result.map some)

def declares (workflow : Workflow) (ident : IdentId) : Bool :=
  (workflow.lookupTrigger? ident).isSome || (workflow.lookupNode? ident).isSome

/-! ### Triggers -/

def pushTrigger (workflow : Workflow) (trigger : Trigger) : Workflow :=
  let id := workflow.triggers.nextId
  { workflow with
    triggers := workflow.triggers.push trigger
    triggerTable := workflow.triggerTable.insert trigger.ident.number id }

def addTrigger (workflow : Workflow) (entry : TriggerEntry) : Workflow × Except LoadError Unit :=
  match workflow.internIdent entry.id with
  | (workflow, .error error) => (workflow, .error error)
  | (workflow, .ok ident) =>
      if workflow.declares ident then
        (workflow, .error (.duplicateId .trigger entry.id))
      else
        match workflow.internName (entry.label.getD entry.id) with
        | (workflow, .error error) => (workflow, .error error)
        | (workflow, .ok label) =>
            if EntryKind.trigger.capacity ≤ workflow.triggers.size then
              (workflow, .error (.tooMany .trigger))
            else
              (workflow.pushTrigger { ident := ident, label := label }, .ok ())

/-! ### Nodes and their ports -/

def pushPort (workflow : Workflow) (port : Port) : Workflow :=
  let id := workflow.ports.nextId
  { workflow with
    ports := workflow.ports.push port
    portTable := workflow.portTable.insert port.ident.number id }

def addPort (workflow : Workflow) (node : NodeId) (entry : PortEntry) :
    Workflow × Except LoadError PortId :=
  match workflow.internIdent entry.id with
  | (workflow, .error error) => (workflow, .error error)
  | (workflow, .ok ident) =>
      if (workflow.lookupPort? ident).isSome then
        (workflow, .error (.duplicateId .port entry.id))
      else
        match workflow.internName entry.name with
        | (workflow, .error error) => (workflow, .error error)
        | (workflow, .ok name) =>
            if EntryKind.port.capacity ≤ workflow.ports.size then
              (workflow, .error (.tooMany .port))
            else
              let id := workflow.ports.nextId
              (workflow.pushPort { ident := ident, node := node, name := name }, .ok id)

/-- Adds the ports of a node until one is refused. The ids come out in order,
behind those of the ports that the node has already. -/
def addPorts (workflow : Workflow) (node : NodeId) (ports : Array PortId) :
    List PortEntry → Workflow × Except LoadError (List PortId)
  | [] => (workflow, .ok ports.toList)
  | entry :: rest =>
      match workflow.addPort node entry with
      | (workflow, .error error) => (workflow, .error error)
      | (workflow, .ok port) => workflow.addPorts node (ports.push port) rest

def ownPort? (workflow : Workflow) (node : NodeId) (id : String) : Option PortId :=
  (workflow.findPort? id).filter fun port =>
    (workflow.port? port).any fun entry => entry.node == node

def defaultPortFor (workflow : Workflow) (node : NodeId) (entry : NodeEntry) :
    Except LoadError (Option PortId) :=
  match entry.defaultPort with
  | none => .ok none
  | some id =>
      match workflow.ownPort? node id with
      | some port => .ok (some port)
      | none => .error (.unknownDefaultPort entry.id id)

def pushNode (workflow : Workflow) (ident : IdentId) (label : NameId) : Workflow :=
  let id := workflow.nodes.nextId
  let node : Node := { ident := ident, label := label, ports := [], defaultPort := none }
  { workflow with
    nodes := workflow.nodes.push node
    nodeTable := workflow.nodeTable.insert ident.number id }

def setPorts (workflow : Workflow) (id : NodeId) (ports : List PortId)
    (defaultPort : Option PortId) : Workflow :=
  match workflow.node? id with
  | none => workflow
  | some node =>
      let node := { node with ports := ports, defaultPort := defaultPort }
      { workflow with nodes := workflow.nodes.set id node }

/-- Adds the ports of a stored node and finds its default port among them. -/
def completeNode (workflow : Workflow) (id : NodeId) (entry : NodeEntry) :
    Workflow × Except LoadError Unit :=
  match workflow.addPorts id #[] entry.ports with
  | (workflow, .error error) => (workflow, .error error)
  | (workflow, .ok ports) =>
      match workflow.defaultPortFor id entry with
      | .error error => (workflow, .error error)
      | .ok defaultPort => (workflow.setPorts id ports defaultPort, .ok ())

/-- Adds a node with its ports, unless its id is taken. A node whose ports are
refused stays declared. -/
def addNode (workflow : Workflow) (entry : NodeEntry) : Workflow × Except LoadError Unit :=
  match workflow.internIdent entry.id with
  | (workflow, .error error) => (workflow, .error error)
  | (workflow, .ok ident) =>
      if workflow.declares ident then
        (workflow, .error (.duplicateId .node entry.id))
      else
        match workflow.internName (entry.label.getD entry.id) with
        | (workflow, .error error) => (workflow, .error error)
        | (workflow, .ok label) =>
            if EntryKind.node.capacity ≤ workflow.nodes.size then
              (workflow, .error (.tooMany .node))
            else
              let id := workflow.nodes.nextId
              (workflow.pushNode ident label).completeNode id entry

/-! ### Edges -/

def internEdge (workflow : Workflow) (entry : EdgeEntry) : Workflow × Except LoadError Edge :=
  match workflow.internIdent entry.id with
  | (workflow, .error error) => (workflow, .error error)
  | (workflow, .ok ident) =>
  match workflow.internIdent entry.sourceNode with
  | (workflow, .error error) => (workflow, .error error)
  | (workflow, .ok sourceNode) =>
  match workflow.internIdent? entry.sourcePort with
  | (workflow, .error error) => (workflow, .error error)
  | (workflow, .ok sourcePort) =>
  match workflow.internIdent entry.targetNode with
  | (workflow, .error error) => (workflow, .error error)
  | (workflow, .ok targetNode) =>
  match workflow.internIdent? entry.targetPort with
  | (workflow, .error error) => (workflow, .error error)
  | (workflow, .ok targetPort) =>
      (workflow, .ok
        { ident := ident
          sourceNode := sourceNode
          sourcePort := sourcePort
          targetNode := targetNode
          targetPort := targetPort })

def addEdge (workflow : Workflow) (entry : EdgeEntry) : Except LoadError Workflow :=
  match workflow.internEdge entry with
  | (_, .error error) => .error error
  | (workflow, .ok edge) =>
      if EntryKind.edge.capacity ≤ workflow.edges.size then
        .error (.tooMany .edge)
      else
        .ok { workflow with edges := workflow.edges.push edge }

/-! ### Whole documents -/

/-- Adds every entry of a list and collects the errors of those refused, in order. -/
def addAll {Entry : Type} (add : Workflow → Entry → Workflow × Except LoadError Unit)
    (workflow : Workflow) : List Entry → Workflow × List LoadError
  | [] => (workflow, [])
  | entry :: rest =>
      match add workflow entry with
      | (workflow, .ok ()) => addAll add workflow rest
      | (workflow, .error error) =>
          let (workflow, errors) := addAll add workflow rest
          (workflow, error :: errors)

def ofEntrypoint : Option String → Except LoadError Workflow
  | none => .ok empty
  | some id =>
      match empty.internIdent id with
      | (_, .error error) => .error error
      | (workflow, .ok ident) => .ok { workflow with entrypoint := some ident }

/-- Loads a document: entrypoint, triggers, nodes, edges. -/
def load (document : Document) : Except LoadFailure Workflow :=
  match ofEntrypoint document.entrypoint with
  | .error error => .error (.stopped error)
  | .ok workflow =>
      let (workflow, triggerErrors) := addAll addTrigger workflow document.triggers
      let (workflow, nodeErrors) := addAll addNode workflow document.nodes
      match document.edges.foldlM addEdge workflow with
      | .error error => .error (.stopped error)
      | .ok workflow =>
          match triggerErrors ++ nodeErrors with
          | [] => .ok workflow
          | errors => .error (.rejected errors)

end Workflow

end FlowGraph
