import FlowGraph.Document
import FlowGraph.Json.Record

/-!
Reading a document from JSON. Every kind of entry has a draft, whose fields tell
what has been read; null stands for a missing optional string.
-/

namespace FlowGraph

open Json

def requireField {Value : Type} (name : String) : Option Value → Except ShapeError Value
  | some value => .ok value
  | none => .error (.missingField name)

/-! ### Fields of drafts -/

def textField {Draft : Type} (name : String) (get : Draft → Option String)
    (set : Draft → String → Draft) : RecordField Draft :=
  { name := name
    required := true
    isRead := fun draft => (get draft).isSome
    read := fun draft text => (readText text).map fun entry => (set draft entry.1, entry.2) }

def nullableField {Draft : Type} (name : String) (get : Draft → Option (Option String))
    (set : Draft → Option String → Draft) : RecordField Draft :=
  { name := name
    required := false
    isRead := fun draft => (get draft).isSome
    read := fun draft text => (readNullable text).map fun entry => (set draft entry.1, entry.2) }

def listField {Draft Value : Type} (name : String) (element : Reader Value)
    (get : Draft → Option (List Value)) (set : Draft → List Value → Draft) : RecordField Draft :=
  { name := name
    required := false
    isRead := fun draft => (get draft).isSome
    read := fun draft text =>
      (readList element text).map fun entry => (set draft entry.1, entry.2) }

/-! ### Triggers -/

structure TriggerDraft where
  id : Option String := none
  label : Option (Option String) := none

def TriggerEntry.shape : RecordShape TriggerDraft TriggerEntry :=
  { name := "TriggerDef"
    fields :=
      [textField "id" TriggerDraft.id fun draft value => { draft with id := some value },
        nullableField "label" TriggerDraft.label fun draft value =>
          { draft with label := some value }]
    blank := {}
    finish := fun draft => do
      let id ← requireField "id" draft.id
      .ok { id := id, label := draft.label.join } }

/-! ### Ports -/

structure PortDraft where
  id : Option String := none
  name : Option String := none

def PortEntry.shape : RecordShape PortDraft PortEntry :=
  { name := "PortDef"
    fields :=
      [textField "id" PortDraft.id fun draft value => { draft with id := some value },
        textField "name" PortDraft.name fun draft value => { draft with name := some value }]
    blank := {}
    finish := fun draft => do
      let id ← requireField "id" draft.id
      let name ← requireField "name" draft.name
      .ok { id := id, name := name } }

/-! ### Nodes -/

structure NodeDraft where
  id : Option String := none
  label : Option (Option String) := none
  ports : Option (List PortEntry) := none
  defaultPort : Option (Option String) := none

def NodeEntry.shape : RecordShape NodeDraft NodeEntry :=
  { name := "NodeDef"
    fields :=
      [textField "id" NodeDraft.id fun draft value => { draft with id := some value },
        nullableField "label" NodeDraft.label fun draft value =>
          { draft with label := some value },
        listField "ports" PortEntry.shape.read NodeDraft.ports fun draft value =>
          { draft with ports := some value },
        nullableField "default_port" NodeDraft.defaultPort fun draft value =>
          { draft with defaultPort := some value }]
    blank := {}
    finish := fun draft => do
      let id ← requireField "id" draft.id
      .ok
        { id := id
          label := draft.label.join
          ports := draft.ports.getD []
          defaultPort := draft.defaultPort.join } }

/-! ### Edges -/

structure EdgeDraft where
  id : Option String := none
  sourceNode : Option String := none
  sourcePort : Option (Option String) := none
  targetNode : Option String := none
  targetPort : Option (Option String) := none

def EdgeEntry.shape : RecordShape EdgeDraft EdgeEntry :=
  { name := "EdgeDef"
    fields :=
      [textField "id" EdgeDraft.id fun draft value => { draft with id := some value },
        textField "source_node_id" EdgeDraft.sourceNode fun draft value =>
          { draft with sourceNode := some value },
        nullableField "source_port_id" EdgeDraft.sourcePort fun draft value =>
          { draft with sourcePort := some value },
        textField "target_node_id" EdgeDraft.targetNode fun draft value =>
          { draft with targetNode := some value },
        nullableField "target_port_id" EdgeDraft.targetPort fun draft value =>
          { draft with targetPort := some value }]
    blank := {}
    finish := fun draft => do
      let id ← requireField "id" draft.id
      let sourceNode ← requireField "source_node_id" draft.sourceNode
      let targetNode ← requireField "target_node_id" draft.targetNode
      .ok
        { id := id
          sourceNode := sourceNode
          sourcePort := draft.sourcePort.join
          targetNode := targetNode
          targetPort := draft.targetPort.join } }

/-! ### Documents -/

structure DocumentDraft where
  entrypoint : Option (Option String) := none
  triggers : Option (List TriggerEntry) := none
  nodes : Option (List NodeEntry) := none
  edges : Option (List EdgeEntry) := none

def Document.shape : RecordShape DocumentDraft Document :=
  { name := "WorkflowDef"
    fields :=
      [nullableField "entrypoint" DocumentDraft.entrypoint fun draft value =>
          { draft with entrypoint := some value },
        listField "triggers" TriggerEntry.shape.read DocumentDraft.triggers fun draft value =>
          { draft with triggers := some value },
        listField "nodes" NodeEntry.shape.read DocumentDraft.nodes fun draft value =>
          { draft with nodes := some value },
        listField "edges" EdgeEntry.shape.read DocumentDraft.edges fun draft value =>
          { draft with edges := some value }]
    blank := {}
    finish := fun draft =>
      .ok
        { entrypoint := draft.entrypoint.join
          triggers := draft.triggers.getD []
          nodes := draft.nodes.getD []
          edges := draft.edges.getD [] } }

def Document.parse (text : String) : Except Fault Document :=
  readWhole Document.shape.read text

end FlowGraph
