import FlowGraph.Reference

/-!
Graph expressions. A sequence links every exit of its first operand to every
head of its second one; a set is the union of its members, which all start from
the same point. Equality of expressions is decidable, member order included.
-/

namespace FlowGraph

/-- A nested sequence and set expression that denotes a piece of a graph. -/
inductive Expr where
  | empty
  | node (node : NodeId)
  | port (node : NodeId) (port : PortId)
  | trigger (trigger : TriggerId)
  | sequence (first second : Expr)
  | set (members : List Expr)
  deriving Inhabited

namespace Expr

/-! ### Equality -/

mutual

def same : Expr → Expr → Bool
  | .empty, .empty => true
  | .node left, .node right => left == right
  | .port leftNode leftPort, .port rightNode rightPort =>
      leftNode == rightNode && leftPort == rightPort
  | .trigger left, .trigger right => left == right
  | .sequence leftFirst leftSecond, .sequence rightFirst rightSecond =>
      same leftFirst rightFirst && same leftSecond rightSecond
  | .set left, .set right => sameMembers left right
  | _, _ => false

def sameMembers : List Expr → List Expr → Bool
  | [], [] => true
  | left :: lefts, right :: rights => same left right && sameMembers lefts rights
  | _, _ => false

end

mutual

private theorem eq_of_same : ∀ left right : Expr, same left right = true → left = right
  | .empty, right, equal => by cases right <;> simp_all [same]
  | .node _, right, equal => by cases right <;> simp_all [same]
  | .port _ _, right, equal => by cases right <;> simp_all [same]
  | .trigger _, right, equal => by cases right <;> simp_all [same]
  | .sequence first second, right, equal => by
      cases right with
      | sequence rightFirst rightSecond =>
          simp only [same, Bool.and_eq_true] at equal
          rw [eq_of_same first rightFirst equal.1, eq_of_same second rightSecond equal.2]
      | _ => simp [same] at equal
  | .set members, right, equal => by
      cases right with
      | set rightMembers =>
          simp only [same] at equal
          rw [eq_of_sameMembers members rightMembers equal]
      | _ => simp [same] at equal

private theorem eq_of_sameMembers :
    ∀ left right : List Expr, sameMembers left right = true → left = right
  | [], right, equal => by cases right <;> simp_all [sameMembers]
  | member :: members, right, equal => by
      cases right with
      | nil => simp [sameMembers] at equal
      | cons rightMember rightMembers =>
          simp only [sameMembers, Bool.and_eq_true] at equal
          rw [eq_of_same member rightMember equal.1,
            eq_of_sameMembers members rightMembers equal.2]

end

mutual

private theorem same_self : ∀ expr : Expr, same expr expr = true
  | .empty => rfl
  | .node _ => by simp [same]
  | .port _ _ => by simp [same]
  | .trigger _ => by simp [same]
  | .sequence first second => by simp [same, same_self first, same_self second]
  | .set members => by simp [same, sameMembers_self members]

private theorem sameMembers_self : ∀ members : List Expr, sameMembers members members = true
  | [] => rfl
  | member :: members => by
      simp [sameMembers, same_self member, sameMembers_self members]

end

/-- The test decides equality of trees. -/
theorem same_iff (left right : Expr) : same left right = true ↔ left = right :=
  ⟨eq_of_same left right, fun equal => equal ▸ same_self left⟩

instance : DecidableEq Expr :=
  fun left right => decidable_of_iff _ (same_iff left right)

/-! ### Leaves -/

def ofReference : Reference → Expr
  | .node nodeId => .node nodeId
  | .port nodeId portId => .port nodeId portId
  | .trigger triggerId => .trigger triggerId

/-- What a leaf points at; nothing for any other expression. -/
def reference? : Expr → Option Reference
  | .node nodeId => some (.node nodeId)
  | .port nodeId portId => some (.port nodeId portId)
  | .trigger triggerId => some (.trigger triggerId)
  | .empty => none
  | .sequence _ _ => none
  | .set _ => none

def owner? (expr : Expr) : Option Reference := expr.reference?.map Reference.owner

def isEmpty : Expr → Bool
  | .empty => true
  | _ => false

def isSet : Expr → Bool
  | .set _ => true
  | _ => false

def isSequence : Expr → Bool
  | .sequence _ _ => true
  | _ => false

mutual

/-- Whether some leaf belongs to the owner of a reference. -/
def contains (reference : Reference) : Expr → Bool
  | .empty => false
  | .node nodeId => Reference.node nodeId == reference.owner
  | .port nodeId _ => Reference.node nodeId == reference.owner
  | .trigger triggerId => Reference.trigger triggerId == reference.owner
  | .sequence first second => first.contains reference || second.contains reference
  | .set members => anyContains reference members

/-- Whether some leaf of some member belongs to the owner of a reference. -/
def anyContains (reference : Reference) : List Expr → Bool
  | [] => false
  | member :: members => member.contains reference || anyContains reference members

end

/-! ### Chains -/

/-- Puts one expression behind another. The empty expression is neutral, and the
operands of a sequence on the right are taken one by one, so that sequences lean
to the left. -/
def andThen (first : Expr) : Expr → Expr
  | .empty => first
  | .sequence second third =>
      if first.isEmpty then .sequence second third
      else (first.andThen second).andThen third
  | step => if first.isEmpty then step else .sequence first step

def chain (steps : List Expr) : Expr := steps.foldl andThen .empty

/-- The steps of nested sequences, from left to right. Any other expression is a
single step, and the empty one is none. -/
def steps : Expr → List Expr
  | .empty => []
  | .sequence first second => first.steps ++ second.steps
  | step => [step]

end Expr

end FlowGraph
