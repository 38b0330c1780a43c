import FlowGraph.Expr

/-!
The graph that an expression denotes: the nodes and triggers that it starts at, the
references through which it is left, and the links inside it. A sequence links every
exit of its first operand to every head of its second one, and a set is the union of
its members.

All three are lists in order of appearance, with repetitions; as sets they are
described by the lemmas on membership.
-/

namespace FlowGraph.Expr

/-! ### Heads -/

mutual

/-- The nodes and triggers that an expression starts at. -/
def heads : Expr → List Reference
  | .empty => []
  | .node nodeId => [.node nodeId]
  | .port nodeId _ => [.node nodeId]
  | .trigger triggerId => [.trigger triggerId]
  | .sequence first _ => first.heads
  | .set members => headsOfAll members

def headsOfAll : List Expr → List Reference
  | [] => []
  | member :: members => member.heads ++ headsOfAll members

end

theorem mem_headsOfAll {head : Reference} {members : List Expr} :
    head ∈ headsOfAll members ↔ ∃ member ∈ members, head ∈ member.heads := by
  induction members with
  | nil => simp [headsOfAll]
  | cons member members ih => simp [headsOfAll, ih]

/-! ### Exits -/

mutual

/-- The references through which an expression is left. -/
def exits : Expr → List Reference
  | .empty => []
  | .node nodeId => [.node nodeId]
  | .port nodeId portId => [.port nodeId portId]
  | .trigger triggerId => [.trigger triggerId]
  | .sequence _ second => second.exits
  | .set members => exitsOfAll members

def exitsOfAll : List Expr → List Reference
  | [] => []
  | member :: members => member.exits ++ exitsOfAll members

end

theorem mem_exitsOfAll {reference : Reference} {members : List Expr} :
    reference ∈ exitsOfAll members ↔ ∃ member ∈ members, reference ∈ member.exits := by
  induction members with
  | nil => simp [exitsOfAll]
  | cons member members ih => simp [exitsOfAll, ih]

/-- The nodes and triggers that an expression ends in, each once and in order of
appearance. A port ends in its node. -/
def endings (expr : Expr) : List Reference := (expr.exits.map Reference.owner).eraseDups

theorem mem_endings {reference : Reference} {expr : Expr} :
    reference ∈ expr.endings ↔ ∃ leaving ∈ expr.exits, leaving.owner = reference := by
  simp [endings]

/-! ### Links -/

def joints (first second : Expr) : List (Reference × Reference) :=
  first.exits.flatMap fun leaving => second.heads.map fun head => (leaving, head)

theorem mem_joints {link : Reference × Reference} {first second : Expr} :
    link ∈ joints first second ↔ link.1 ∈ first.exits ∧ link.2 ∈ second.heads := by
  obtain ⟨leaving, head⟩ := link
  simp [joints]

mutual

/-- The links inside an expression, from an exit to a head each. -/
def links : Expr → List (Reference × Reference)
  | .empty => []
  | .node _ => []
  | .port _ _ => []
  | .trigger _ => []
  | .sequence first second => first.links ++ second.links ++ joints first second
  | .set members => linksOfAll members

def linksOfAll : List Expr → List (Reference × Reference)
  | [] => []
  | member :: members => member.links ++ linksOfAll members

end

theorem mem_linksOfAll {link : Reference × Reference} {members : List Expr} :
    link ∈ linksOfAll members ↔ ∃ member ∈ members, link ∈ member.links := by
  induction members with
  | nil => simp [linksOfAll]
  | cons member members ih => simp [linksOfAll, ih]

end FlowGraph.Expr
