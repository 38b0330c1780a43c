import FlowGraph.Compilation
import FlowGraph.Proofs.RewriteInvariant
import FlowGraph.Proofs.VisitedBuilds

/-!
Properties of all expressions that are built for a workflow. A property that rewrites keep
and that the ends of resolved edges have as leaves holds of every expression on the way of a
build, unless that is still empty, and so of everything that compilation ends with.
-/

namespace FlowGraph

open FlowGraph.Expr

def Expr.EmptyOr (holds : Expr → Prop) (expr : Expr) : Prop := expr = .empty ∨ holds expr

private theorem RewriteInvariant.emptyOr_flatten {hasDefaultExit : NodeId → Bool}
    {holds : Expr → Prop} (invariant : RewriteInvariant hasDefaultExit holds) {members : List Expr}
    (held : ∀ member ∈ members, member.EmptyOr holds) :
    (Expr.flatten hasDefaultExit members).EmptyOr holds := by
  by_cases vacant : Expr.flatten hasDefaultExit members = .empty
  · exact Or.inl vacant
  · refine Or.inr (invariant.flatten ?_ vacant)
    intro member present occupied
    exact (held member present).resolve_left occupied

/-- A property that rewrites keep, and that all leaves have which a build brings in: the ends
of edges that resolve, the owners of their sources, and the triggers. -/
structure BuildInvariant (workflow : Workflow) (holds : Expr → Prop) : Prop
    extends RewriteInvariant workflow.hasDefaultExit holds where
  target : ∀ {edge resolved}, workflow.resolveEdge edge = .ok resolved →
    holds (.node resolved.target)
  source : ∀ {edge leaving target}, workflow.resolveEdge edge = .ok ⟨some leaving, target⟩ →
    holds (ofReference leaving) ∧ holds (ofReference leaving.owner)
  trigger : ∀ {ident trigger}, workflow.lookupTrigger? ident = some trigger →
    holds (.trigger trigger)

namespace BuildInvariant

variable {workflow : Workflow} {holds : Expr → Prop} {start build : Build}

/-! ### One build -/

theorem step (invariant : BuildInvariant workflow holds) (edge : EdgeId)
    (held : build.expr.EmptyOr holds) : (build.step workflow edge).expr.EmptyOr holds := by
  cases resolves : workflow.resolveEdge edge with
  | error cause =>
      rw [Build.step_of_dangling build resolves]
      exact held
  | ok resolved =>
      cases found : workflow.surroundings.foldAtTop resolved.source resolved.target build.expr with
      | none =>
          rw [Build.step_of_unplaced build resolves found]
          exact held
      | some folded =>
          rw [Build.step_of_placed build resolves found]
          rcases held with vacant | held
          · rw [vacant] at found
            cases found
            exact Or.inr (invariant.target resolves)
          · refine Or.inr (invariant.fold (invariant.target resolves) ?_ held found)
            rintro leaving isSource
            obtain ⟨source, target⟩ := resolved
            cases isSource
            exact (invariant.source resolves).1

theorem sourceOwner (invariant : BuildInvariant workflow holds) {edge : EdgeId}
    {owner : Reference} (found : Build.sourceOwner? workflow edge = some owner) :
    holds (ofReference owner) := by
  obtain ⟨leaving, target, resolves, rfl⟩ := Build.sourceOwner?_eq_some.mp found
  exact (invariant.source resolves).2

theorem refill (invariant : BuildInvariant workflow holds) (first : EdgeId) (rest : List EdgeId)
    (held : build.expr.EmptyOr holds) :
    (build.refill workflow first rest).expr.EmptyOr holds := by
  unfold Build.refill
  dsimp only
  split
  · exact held
  · rw [Build.expr_restart]
    split
    · rename_i owner found
      apply invariant.emptyOr_flatten
      intro member present
      rcases List.mem_cons.mp present with rfl | last
      · exact held
      · rw [List.mem_singleton.mp last]
        exact Or.inr (invariant.sourceOwner found)
    · exact held

/-- Every build on the way from an expression with the property has one with it. -/
theorem visits (invariant : BuildInvariant workflow holds)
    (visited : Build.Visits workflow start build) (held : start.expr.EmptyOr holds) :
    build.expr.EmptyOr holds := by
  induction visited with
  | start => exact held
  | step _ _ ih => exact invariant.step _ ih
  | refill _ _ ih => exact invariant.refill _ _ ih

/-! ### Main builds and components -/

private theorem emptyOr_ofReferences (invariant : BuildInvariant workflow holds)
    {references : List Reference}
    (held : ∀ reference ∈ references, holds (ofReference reference)) :
    (flatten workflow.hasDefaultExit (references.map ofReference)).EmptyOr holds := by
  apply invariant.emptyOr_flatten
  intro leaf image
  obtain ⟨reference, present, rfl⟩ := List.mem_map.mp image
  exact Or.inr (held reference present)

theorem mainStart (invariant : BuildInvariant workflow holds) (progress : Progress) :
    (Build.mainStart workflow progress).expr.EmptyOr holds := by
  apply invariant.emptyOr_ofReferences
  intro reference isStart
  obtain ⟨_, _, _, _, _, declared, rfl⟩ := Build.mem_entryTriggers.mp isStart
  exact invariant.trigger declared

theorem ofRoots (invariant : BuildInvariant workflow holds) (component : Component)
    (progress : Progress) : (Build.ofRoots workflow component progress).expr.EmptyOr holds := by
  rw [Build.ofRoots]
  dsimp only
  rw [Build.fst_seeds]
  apply invariant.emptyOr_ofReferences
  intro reference isRoot
  obtain ⟨_, _, found⟩ := List.mem_filterMap.mp isRoot
  exact invariant.sourceOwner found

theorem main (invariant : BuildInvariant workflow holds) :
    workflow.compile.main.EmptyOr holds :=
  invariant.visits (Build.visits_main workflow _) (invariant.mainStart _)

private theorem componentsFrom (invariant : BuildInvariant workflow holds)
    {groups : List Component} {progress : Progress} {index : Nat} {expr : Expr}
    (present : expr ∈ (Build.componentsFrom workflow progress index groups).1) : holds expr := by
  induction groups generalizing progress index with
  | nil => cases present
  | cons group groups ih =>
      rw [Build.componentsFrom] at present
      dsimp only at present
      split at present
      · exact ih present
      · rename_i occupied
        rcases List.mem_cons.mp present with rfl | inRest
        · have held := invariant.visits (Build.visits_component workflow group progress)
            (invariant.ofRoots group progress)
          refine held.resolve_left fun vacant => occupied ?_
          rw [vacant]
          rfl
        · exact ih inRest

theorem components (invariant : BuildInvariant workflow holds) {expr : Expr}
    (present : expr ∈ workflow.compile.components) : holds expr := by
  have isBuilt : expr ∈ (Build.components workflow workflow.mainBuild.progress).1 := present
  obtain ⟨_, _, same⟩ := Build.components_eq workflow workflow.mainBuild.progress
  rw [same] at isBuilt
  exact invariant.componentsFrom isBuilt

end BuildInvariant

end FlowGraph
