import FlowGraph.Expr
import FlowGraph.Workflow.Resolution

/-!
What is worth recording while a workflow is loaded and compiled. An event names
edges by id; their raw ids are looked up only when the event is shown.
-/

namespace FlowGraph

inductive EventLevel where
  | trace
  | debug
  | info
  deriving DecidableEq

namespace EventLevel

def name : EventLevel → String
  | .trace => "trace"
  | .debug => "debug"
  | .info => "info"

/-- Levels with more detail have lower ranks. -/
def rank : EventLevel → Nat
  | .trace => 0
  | .debug => 1
  | .info => 2

end EventLevel

/-- Something that happened while a workflow was loaded or compiled. -/
inductive Event where
  | loaded (nodes ports triggers edges : Nat)
  /-- Numbers and total lengths of the interned raw ids and display texts. -/
  | interned (idents identBytes names nameBytes : Nat)
  | indexed (edges leaving : Nat) (fromTriggers : Bool)
  | mainStarted (entryEdges : Nat)
  | taken (edge : EdgeId)
  /-- An edge was left out because it dangles. -/
  | dropped (edge : EdgeId) (cause : DanglingCause)
  | placed (edge : EdgeId) (expr : Expr)
  /-- An edge resolves but has no place in the expression. -/
  | unplaced (edge : EdgeId)
  /-- An edge was set aside without being queued. -/
  | skipped (edge : EdgeId)
  /-- The main expression left edges over, which form this many components. -/
  | leftOver (edges components : Nat)
  | componentStarted (edges roots : Nat)
  | componentOmitted (index : Nat)
  | compiled (edges : Nat) (mainIsEmpty : Bool) (components : Nat)
  deriving DecidableEq

namespace Event

def level : Event → EventLevel
  | .taken _ | .placed _ _ | .skipped _ => .trace
  | .loaded _ _ _ _ | .interned _ _ _ _ | .indexed _ _ _ | .dropped _ _ | .unplaced _
  | .componentStarted _ _ | .componentOmitted _ => .debug
  | .mainStarted _ | .leftOver _ _ | .compiled _ _ _ => .info

def message (workflow : Workflow) : Event → String
  | .loaded nodes ports triggers edges =>
      s!"loaded workflow with {nodes} nodes, {ports} ports, {triggers} triggers, {edges} edges"
  | .interned idents identBytes names nameBytes =>
      s!"{idents} idents (str len {identBytes}), {names} names (str len {nameBytes})"
  | .indexed edges leaving fromTriggers =>
      let entry := if fromTriggers then "triggers" else "point"
      s!"indexed {edges} edges, {leaving} leaving the entry {entry}"
  | .mainStarted entryEdges => s!"building main expression from {entryEdges} entry edges"
  | .taken edge => "taking edge " ++ workflow.edgeText edge
  | .dropped edge cause => "dropping edge " ++ workflow.edgeText edge ++ ": " ++ cause.message
  | .placed edge _ => "folded edge " ++ workflow.edgeText edge
  | .unplaced edge => "edge " ++ workflow.edgeText edge ++ " has no place in the expression"
  | .skipped edge => "skipping edge " ++ workflow.edgeText edge
  | .leftOver edges components => s!"{edges} edges left over, in {components} components"
  | .componentStarted edges roots => s!"building component of {edges} edges from {roots} roots"
  | .componentOmitted index => s!"component {index} folded to nothing; omitting it"
  | .compiled edges mainIsEmpty components =>
      let main := if mainIsEmpty then "empty" else "built"
      s!"compiled {edges} edges: main expression {main}, {components} leftover components"

def line (workflow : Workflow) (event : Event) : String :=
  event.level.name ++ " " ++ event.message workflow

def atLeast (level : EventLevel) (events : Array Event) : Array Event :=
  events.filter fun event => level.rank ≤ event.level.rank

end Event

end FlowGraph
