import FlowGraph.Proofs.Solid

/-!
Chains of steps. Putting one expression behind another one is associative and has the empty
expression as its unit, and the steps of the two are appended. The expressions that are the
chain of their own steps are those that lean to the left, and the empty one.
-/

namespace FlowGraph.Expr

/-! ### Steps -/

theorem IsStep.steps {step : Expr} (isStep : step.IsStep) : step.steps = [step] := by
  cases step with
  | empty => exact absurd rfl isStep.occupied
  | sequence _ _ => cases isStep.single
  | _ => rfl

private theorem isStep_of_mem_steps {expr step : Expr} (present : step ∈ expr.steps) :
    step.IsStep := by
  induction expr with
  | empty => cases present
  | sequence first second ihFirst ihSecond =>
      rcases List.mem_append.mp present with inFirst | inSecond
      · exact ihFirst inFirst
      · exact ihSecond inSecond
  | _ =>
      rw [List.mem_singleton.mp present]
      exact ⟨Expr.noConfusion, rfl⟩

theorem steps_andThen (first second : Expr) :
    (first.andThen second).steps = first.steps ++ second.steps :=
  append_andThen rfl (fun _ _ => rfl) first second

/-! ### Leaning to the left -/

/-- An expression that leans to the left: a single step, or a sequence that has a single step
as its second operand and again leans to the left in its first one. -/
inductive LeansLeft : Expr → Prop where
  | step {expr : Expr} (isStep : expr.IsStep) : LeansLeft expr
  | sequence {first second : Expr} (ofFirst : LeansLeft first) (isStep : second.IsStep) :
      LeansLeft (.sequence first second)

theorem LeansLeft.ne_empty {expr : Expr} (leans : expr.LeansLeft) : expr ≠ .empty := by
  cases leans with
  | step isStep => exact isStep.occupied
  | sequence _ _ => exact Expr.noConfusion

theorem LeansLeft.andThen {first second : Expr} (ofFirst : first.LeansLeft)
    (ofSecond : second.LeansLeft) : (first.andThen second).LeansLeft := by
  induction ofSecond generalizing first with
  | step isStep =>
      rw [andThen_of_isStep ofFirst.ne_empty isStep]
      exact .sequence ofFirst isStep
  | sequence _ isStep ih =>
      rw [andThen_sequence _ _ ofFirst.ne_empty]
      have extended := ih ofFirst
      rw [andThen_of_isStep extended.ne_empty isStep]
      exact .sequence extended isStep

theorem leansLeft_chain {steps : List Expr} (inhabited : steps ≠ [])
    (ofSteps : ∀ step ∈ steps, step.IsStep) : (chain steps).LeansLeft := by
  induction steps with
  | nil => exact absurd rfl inhabited
  | cons step steps ih =>
      have leans := LeansLeft.step (ofSteps step List.mem_cons_self)
      rw [chain_cons]
      by_cases last : steps = []
      · rw [last]
        exact leans
      · exact leans.andThen (ih last fun other member =>
          ofSteps other (List.mem_cons_of_mem step member))

theorem LeansLeft.chain_steps {expr : Expr} (leans : expr.LeansLeft) :
    chain expr.steps = expr := by
  induction leans with
  | step isStep => rw [isStep.steps, chain_cons, chain_nil, andThen_empty]
  | @sequence first second ofFirst isStep ih =>
      rw [steps, chain_append, ih, isStep.steps, chain_cons, chain_nil, andThen_empty,
        andThen_of_isStep ofFirst.ne_empty isStep]

private theorem chain_steps_eq_self_iff (expr : Expr) :
    chain expr.steps = expr ↔ expr = .empty ∨ expr.LeansLeft := by
  constructor
  · intro same
    by_cases noSteps : expr.steps = []
    · rw [noSteps] at same
      exact Or.inl same.symm
    · rw [← same]
      exact Or.inr (leansLeft_chain noSteps fun _ present => isStep_of_mem_steps present)
  · intro shape
    rcases shape with rfl | leans
    · rfl
    · exact leans.chain_steps

/-! ### Main result -/

/-- Putting one expression behind another one has the laws of a monoid, and taking the steps
keeps them. The steps of an expression make up the expression again exactly if it is empty or
leans to the left. -/
theorem andThen_is_monoid (first second third : Expr) :
    (first.andThen second).andThen third = first.andThen (second.andThen third) ∧
      empty.andThen first = first ∧ first.andThen .empty = first ∧
      empty.steps = [] ∧ (first.andThen second).steps = first.steps ++ second.steps ∧
      (chain first.steps = first ↔ first = .empty ∨ first.LeansLeft) :=
  ⟨andThen_assoc first second third, empty_andThen first, andThen_empty first, rfl,
    steps_andThen first second, chain_steps_eq_self_iff first⟩

/-- A sequence that leans to the right has the same steps, and they make up another one. -/
example : chain (Expr.sequence (.node ⟨0⟩) (.sequence (.node ⟨1⟩) (.node ⟨2⟩))).steps =
    .sequence (.sequence (.node ⟨0⟩) (.node ⟨1⟩)) (.node ⟨2⟩) := by
  decide

end FlowGraph.Expr
