/-!
The workflow document: what a user writes down about a workflow, before any id
has been looked up. Entries are kept in the order in which they are written.
-/

namespace FlowGraph

/-- A declared trigger: an entry into the graph that is not a node. -/
structure TriggerEntry where
  id : String
  label : Option String := none
  deriving DecidableEq

/-- A named way out of a node. -/
structure PortEntry where
  id : String
  name : String
  deriving DecidableEq

structure NodeEntry where
  id : String
  label : Option String := none
  ports : List PortEntry := []
  /-- The id of the port that is taken unconditionally, if there is one. -/
  defaultPort : Option String := none
  deriving DecidableEq

/-- A directed edge between raw ids, which need not be declared anywhere. -/
structure EdgeEntry where
  id : String
  sourceNode : String
  sourcePort : Option String := none
  targetNode : String
  targetPort : Option String := none
  deriving DecidableEq

structure Document where
  /-- The id that marks the structural entry. It is not a node; the edges that
  leave it start the main graph when no trigger is declared. -/
  entrypoint : Option String := none
  triggers : List TriggerEntry := []
  nodes : List NodeEntry := []
  edges : List EdgeEntry := []
  deriving DecidableEq

end FlowGraph
