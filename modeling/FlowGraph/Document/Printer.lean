import FlowGraph.Document
import FlowGraph.Json.Quoted

/-!
The compact JSON form of a document: fields in order of declaration, missing
optional fields left out, and lists always there.
-/

namespace FlowGraph

namespace Json

def entry (name : String) (value : List Char) : List Char := encode name ++ ':' :: value

def optionalEntry (name : String) (value : Option String) : List (List Char) :=
  value.toList.map fun text => entry name (encode text)

def separated (values : List (List Char)) : List Char := [','].intercalate values

def object (entries : List (List Char)) : List Char :=
  '\x7b' :: separated entries ++ ['\x7d']

def array (values : List (List Char)) : List Char := '[' :: separated values ++ [']']

end Json

open Json

def TriggerEntry.toJson (trigger : TriggerEntry) : List Char :=
  object (entry "id" (encode trigger.id) :: optionalEntry "label" trigger.label)

def PortEntry.toJson (port : PortEntry) : List Char :=
  object [entry "id" (encode port.id), entry "name" (encode port.name)]

def NodeEntry.toJson (node : NodeEntry) : List Char :=
  object (entry "id" (encode node.id) :: optionalEntry "label" node.label ++
    entry "ports" (array (node.ports.map PortEntry.toJson)) ::
      optionalEntry "default_port" node.defaultPort)

def EdgeEntry.toJson (edge : EdgeEntry) : List Char :=
  object (entry "id" (encode edge.id) ::
    entry "source_node_id" (encode edge.sourceNode) ::
      optionalEntry "source_port_id" edge.sourcePort ++
        entry "target_node_id" (encode edge.targetNode) ::
          optionalEntry "target_port_id" edge.targetPort)

def Document.toJson (document : Document) : List Char :=
  object (optionalEntry "entrypoint" document.entrypoint ++
    [entry "triggers" (array (document.triggers.map TriggerEntry.toJson)),
      entry "nodes" (array (document.nodes.map NodeEntry.toJson)),
      entry "edges" (array (document.edges.map EdgeEntry.toJson))])

def Document.print (document : Document) : String := String.ofList document.toJson

end FlowGraph
