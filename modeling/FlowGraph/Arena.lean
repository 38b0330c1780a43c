/-!
Append-only storage with typed ids. An id type states how many ids it has;
positions beyond that number wrap around, so an arena of no more values hands out
a different id for every value. The capacity checks of the workflow loader keep
every arena of a workflow within that range.
-/

namespace FlowGraph

/-- A type of ids into an arena, of which there is a fixed number. -/
class ArenaId (Id : Type) where
  count : Nat
  /-- The id with the given number, which is below `count`. -/
  ofNumber : Nat → Id
  number : Id → Nat

namespace ArenaId

/-- The id of a position: the position modulo the number of ids. -/
def ofPosition (Id : Type) [ArenaId Id] (position : Nat) : Id :=
  ofNumber (position % count Id)

end ArenaId

/-- Values in insertion order, each reached through its id. -/
structure Arena (Id Value : Type) where
  values : Array Value

namespace Arena

variable {Id Value : Type}

def empty : Arena Id Value := ⟨#[]⟩

def size (arena : Arena Id Value) : Nat := arena.values.size

def isEmpty (arena : Arena Id Value) : Bool := arena.values.isEmpty

def toList (arena : Arena Id Value) : List Value := arena.values.toList

variable [ArenaId Id]

def get? (arena : Arena Id Value) (id : Id) : Option Value :=
  arena.values[ArenaId.number id]?

def nextId (arena : Arena Id Value) : Id := ArenaId.ofPosition Id arena.size

/-- Stores a value behind all others. Its id is the former `nextId`. -/
def push (arena : Arena Id Value) (value : Value) : Arena Id Value :=
  ⟨arena.values.push value⟩

def hasId (arena : Arena Id Value) (id : Id) : Bool := ArenaId.number id < arena.size

def set (arena : Arena Id Value) (id : Id) (value : Value) : Arena Id Value :=
  ⟨arena.values.setIfInBounds (ArenaId.number id) value⟩

def ids (arena : Arena Id Value) : List Id :=
  (List.range arena.size).map (ArenaId.ofPosition Id)

def enumerate (arena : Arena Id Value) : List (Id × Value) :=
  arena.ids.zip arena.toList

end Arena

end FlowGraph
