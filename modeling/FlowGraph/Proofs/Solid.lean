import FlowGraph.Expr.Rewrite

/-!
Solid expressions: those that hold neither the empty expression nor a set without
members. Every piece of a solid expression denotes something, so a sequence of
solid operands is left where its second operand is left.

The module begins with induction over expressions, in which a set's members are
covered by one hypothesis, and ends with the laws of chains.
-/

namespace FlowGraph.Expr

/-! ### Induction -/

/-- Induction over expressions. For a set, the property is known of every member. -/
@[elab_as_elim, induction_eliminator]
theorem memberInduction {motive : Expr → Prop}
    (empty : motive .empty)
    (node : ∀ nodeId, motive (.node nodeId))
    (port : ∀ nodeId portId, motive (.port nodeId portId))
    (trigger : ∀ triggerId, motive (.trigger triggerId))
    (sequence : ∀ first second, motive first → motive second → motive (.sequence first second))
    (set : ∀ members, (∀ member ∈ members, motive member) → motive (.set members))
    (expr : Expr) : motive expr := by
  refine @Expr.rec motive (fun members => ∀ member ∈ members, motive member)
    empty node port trigger sequence set ?nil ?cons expr
  case nil =>
    intro member impossible
    cases impossible
  case cons =>
    intro head tail ofHead ofTail member present
    rcases List.mem_cons.mp present with rfl | inTail
    · exact ofHead
    · exact ofTail member inTail

/-! ### Solid expressions -/

/-- Neither the expression nor any part of it is empty, and no set in it is
without members. -/
inductive Solid : Expr → Prop where
  | node (nodeId : NodeId) : Solid (.node nodeId)
  | port (nodeId : NodeId) (portId : PortId) : Solid (.port nodeId portId)
  | trigger (triggerId : TriggerId) : Solid (.trigger triggerId)
  | sequence {first second : Expr} (ofFirst : Solid first) (ofSecond : Solid second) :
      Solid (.sequence first second)
  | set {members : List Expr} (inhabited : members ≠ [])
      (ofMembers : ∀ member ∈ members, Solid member) : Solid (.set members)

theorem solid_ofReference (reference : Reference) : (ofReference reference).Solid := by
  cases reference with
  | node nodeId => exact .node nodeId
  | port nodeId portId => exact .port nodeId portId
  | trigger triggerId => exact .trigger triggerId

theorem Solid.ne_empty {expr : Expr} (solid : expr.Solid) : expr ≠ .empty := by
  intro vacant
  subst vacant
  cases solid

theorem isEmpty_eq_true_iff (expr : Expr) : expr.isEmpty = true ↔ expr = .empty := by
  cases expr <;> simp [isEmpty]

/-! ### Steps -/

theorem Solid.steps_ne_nil {expr : Expr} (solid : expr.Solid) : expr.steps ≠ [] := by
  induction solid with
  | sequence ofFirst ofSecond ihFirst ihSecond =>
      intro noSteps
      exact ihFirst (List.append_eq_nil_iff.mp noSteps).1
  | _ => simp [steps]

theorem Solid.of_mem_steps {expr : Expr} (solid : expr.Solid) :
    ∀ step ∈ expr.steps, step.Solid := by
  induction solid with
  | sequence ofFirst ofSecond ihFirst ihSecond =>
      intro step member
      rcases List.mem_append.mp member with inFirst | inSecond
      · exact ihFirst step inFirst
      · exact ihSecond step inSecond
  | set inhabited ofMembers _ =>
      intro step member
      rw [List.mem_singleton.mp member]
      exact .set inhabited ofMembers
  | _ =>
      intro step member
      rw [List.mem_singleton.mp member]
      constructor

/-! ### Putting one expression behind another -/

@[simp] theorem andThen_empty (first : Expr) : first.andThen .empty = first := rfl

@[simp] theorem empty_andThen (second : Expr) : empty.andThen second = second := by
  cases second <;> rfl

private theorem isEmpty_of_ne_empty {expr : Expr} (occupied : expr ≠ .empty) :
    expr.isEmpty = false := by
  rw [Bool.eq_false_iff, Ne, isEmpty_eq_true_iff]
  exact occupied

theorem andThen_sequence {first : Expr} (second third : Expr) (occupied : first ≠ .empty) :
    first.andThen (.sequence second third) = (first.andThen second).andThen third := by
  simp only [andThen, isEmpty_of_ne_empty occupied, Bool.false_eq_true, if_false]

/-- A single step of a chain: neither empty nor a sequence. -/
structure IsStep (expr : Expr) : Prop where
  occupied : expr ≠ .empty
  single : expr.isSequence = false

theorem andThen_of_isStep {first step : Expr} (occupied : first ≠ .empty)
    (isStep : step.IsStep) : first.andThen step = .sequence first step := by
  cases step with
  | empty => exact absurd rfl isStep.occupied
  | sequence _ _ => cases isStep.single
  | _ => simp only [andThen, isEmpty_of_ne_empty occupied, Bool.false_eq_true, if_false]

theorem andThen_ne_empty_left {first : Expr} (second : Expr) (occupied : first ≠ .empty) :
    first.andThen second ≠ .empty := by
  induction second generalizing first with
  | empty => exact occupied
  | sequence second third ihSecond ihThird =>
      rw [andThen_sequence second third occupied]
      exact ihThird (ihSecond occupied)
  | _ =>
      rw [andThen_of_isStep occupied ⟨Expr.noConfusion, rfl⟩]
      exact Expr.noConfusion

theorem andThen_assoc (first second third : Expr) :
    (first.andThen second).andThen third = first.andThen (second.andThen third) := by
  by_cases vacant : first = .empty
  · rw [vacant, empty_andThen, empty_andThen]
  by_cases idle : second = .empty
  · rw [idle, andThen_empty, empty_andThen]
  induction third generalizing second with
  | empty => rfl
  | sequence third fourth ihThird ihFourth =>
      have continued : second.andThen third ≠ .empty := andThen_ne_empty_left third idle
      calc (first.andThen second).andThen (.sequence third fourth)
          = ((first.andThen second).andThen third).andThen fourth :=
            andThen_sequence third fourth (andThen_ne_empty_left second vacant)
        _ = (first.andThen (second.andThen third)).andThen fourth := by
            rw [ihThird second idle]
        _ = first.andThen ((second.andThen third).andThen fourth) :=
            ihFourth (second.andThen third) continued
        _ = first.andThen (second.andThen (.sequence third fourth)) := by
            rw [andThen_sequence third fourth idle]
  | _ => rw [andThen_of_isStep idle ⟨Expr.noConfusion, rfl⟩, andThen_sequence _ _ vacant]

/-- What is read of both operands of a sequence, one behind the other, is so read of any two
expressions of which one is put behind the other. -/
theorem append_andThen {Item : Type} {read : Expr → List Item} (ofEmpty : read .empty = [])
    (ofSequence : ∀ first second, read (.sequence first second) = read first ++ read second)
    (first second : Expr) : read (first.andThen second) = read first ++ read second := by
  by_cases vacant : first = .empty
  · rw [vacant, empty_andThen, ofEmpty, List.nil_append]
  induction second generalizing first with
  | empty => rw [andThen_empty, ofEmpty, List.append_nil]
  | sequence second third ihSecond ihThird =>
      rw [andThen_sequence second third vacant,
        ihThird _ (andThen_ne_empty_left second vacant), ihSecond first vacant, ofSequence,
        List.append_assoc]
  | _ => rw [andThen_of_isStep vacant ⟨Expr.noConfusion, rfl⟩, ofSequence]

theorem Solid.andThen {first second : Expr} (ofFirst : first.Solid) (ofSecond : second.Solid) :
    (first.andThen second).Solid := by
  induction ofSecond generalizing first with
  | sequence _ _ ihSecond ihThird =>
      rw [andThen_sequence _ _ ofFirst.ne_empty]
      exact ihThird (ihSecond ofFirst)
  | set inhabited ofMembers _ =>
      rw [andThen_of_isStep ofFirst.ne_empty ⟨Expr.noConfusion, rfl⟩]
      exact .sequence ofFirst (.set inhabited ofMembers)
  | _ =>
      rw [andThen_of_isStep ofFirst.ne_empty ⟨Expr.noConfusion, rfl⟩]
      exact .sequence ofFirst (by constructor)

/-! ### Chains -/

@[simp] theorem chain_nil : chain [] = .empty := rfl

private theorem foldl_andThen (first : Expr) (steps : List Expr) :
    steps.foldl Expr.andThen first = first.andThen (chain steps) := by
  induction steps generalizing first with
  | nil => rfl
  | cons step steps ih =>
      rw [chain, List.foldl_cons, List.foldl_cons, ih, ih, empty_andThen, andThen_assoc]

@[simp] theorem chain_cons (step : Expr) (steps : List Expr) :
    chain (step :: steps) = step.andThen (chain steps) := by
  rw [chain, List.foldl_cons, foldl_andThen, empty_andThen]

theorem chain_append (front back : List Expr) :
    chain (front ++ back) = (chain front).andThen (chain back) := by
  rw [chain, List.foldl_append, foldl_andThen]
  rfl

theorem solid_chain {steps : List Expr} (inhabited : steps ≠ [])
    (ofSteps : ∀ step ∈ steps, step.Solid) : (chain steps).Solid := by
  induction steps with
  | nil => exact absurd rfl inhabited
  | cons step steps ih =>
      have ofStep := ofSteps step List.mem_cons_self
      rw [chain_cons]
      by_cases last : steps = []
      · rw [last]
        exact ofStep
      · exact ofStep.andThen (ih last fun other member =>
          ofSteps other (List.mem_cons_of_mem step member))

end FlowGraph.Expr
