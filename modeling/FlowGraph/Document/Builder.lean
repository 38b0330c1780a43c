import FlowGraph.Document

/-!
Terse construction of documents. Edges are numbered as they are added, and a
port's id is made of its node's id and its own name, joined by a dot; an edge may
name such a port as its source.
-/

namespace FlowGraph

namespace NodeEntry

def ofId (id : String) : NodeEntry := { id := id }

def withLabel (node : NodeEntry) (label : String) : NodeEntry :=
  { node with label := some label }

def portId (node : NodeEntry) (name : String) : String := node.id ++ "." ++ name

def withPort (node : NodeEntry) (name : String) : NodeEntry :=
  { node with ports := node.ports ++ [{ id := node.portId name, name := name }] }

/-- Adds a port with the given name and makes it the default one. -/
def withDefaultPort (node : NodeEntry) (name : String) : NodeEntry :=
  { node.withPort name with defaultPort := some (node.portId name) }

end NodeEntry

namespace Document

def ofEntrypoint (id : String) : Document := { entrypoint := some id }

def addTrigger (document : Document) (id : String) : Document :=
  { document with triggers := document.triggers ++ [{ id := id }] }

def addNode (document : Document) (node : NodeEntry) : Document :=
  { document with nodes := document.nodes ++ [node] }

def addNodes (document : Document) (ids : List String) : Document :=
  { document with nodes := document.nodes ++ ids.map NodeEntry.ofId }

/-- The node named by the source of an edge: the part before the first dot. -/
def sourceNodeOf (source : String) : String :=
  String.ofList (source.toList.takeWhile (· ≠ '.'))

/-- Adds an edge. A source with a dot in it is the id of a port; its node is
named by the part before the first dot. -/
def addEdge (document : Document) (source target : String) : Document :=
  let edge : EdgeEntry :=
    { id := "e" ++ toString document.edges.length
      sourceNode := sourceNodeOf source
      sourcePort := if source.toList.contains '.' then some source else none
      targetNode := target }
  { document with edges := document.edges ++ [edge] }

end Document

end FlowGraph
