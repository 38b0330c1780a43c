import FlowGraph.Arena

/-!
The ids of a workflow's parts. Idents and names number interned strings: an
ident is a raw id from the document, a name is a display text. The other ids
number the entries of the workflow in document order.
-/

namespace FlowGraph

/-- An interned raw id: of a node, port, trigger or edge, or of the entrypoint. -/
structure IdentId where
  number : Nat
  deriving DecidableEq

/-- An interned display text: a label or the name of a port. -/
structure NameId where
  number : Nat
  deriving DecidableEq

structure NodeId where
  number : Nat
  deriving DecidableEq

structure PortId where
  number : Nat
  deriving DecidableEq

structure TriggerId where
  number : Nat
  deriving DecidableEq

structure EdgeId where
  number : Nat
  deriving DecidableEq

instance : ArenaId NodeId := ⟨UInt16.size, NodeId.mk, NodeId.number⟩

instance : ArenaId PortId := ⟨UInt16.size, PortId.mk, PortId.number⟩

instance : ArenaId TriggerId := ⟨UInt8.size, TriggerId.mk, TriggerId.number⟩

instance : ArenaId EdgeId := ⟨UInt32.size, EdgeId.mk, EdgeId.number⟩

end FlowGraph
