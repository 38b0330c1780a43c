import FlowGraph.Proofs.Components

/-!
The builds that a run passes through. Between its start and its end a build is only ever
changed by working on the edge that waits first and, when none waits, by looking for a
fresh edge to go on with. What both keep, every build on the way has.
-/

namespace FlowGraph.Build

variable {workflow : Workflow} {start build : Build}

/-- The builds that come up on the way from a first one, that one included. -/
inductive Visits (workflow : Workflow) (start : Build) : Build → Prop where
  | start : Visits workflow start start
  /-- The edge that waits first is worked on. -/
  | step {build : Build} {edge : EdgeId} {pending fresh : List EdgeId}
      (before : Visits workflow start build) (queueIs : build.queue = ⟨edge :: pending, fresh⟩) :
      Visits workflow start ({ build with queue := ⟨pending, fresh⟩ }.step workflow edge)
  /-- No edge waits, but some are fresh. -/
  | refill {build : Build} {first : EdgeId} {rest : List EdgeId}
      (before : Visits workflow start build) (queueIs : build.queue = ⟨[], first :: rest⟩) :
      Visits workflow start (build.refill workflow first rest)

theorem pending_drain (workflow : Workflow) (build : Build) :
    (build.drain workflow).queue.pending = [] := by
  fun_induction drain workflow build with
  | case1 build fresh queueIs => rw [queueIs]
  | case2 build edge pending fresh queueIs ih => exact ih

namespace Visits

theorem drain (visited : Visits workflow start build) :
    Visits workflow start (build.drain workflow) := by
  fun_induction Build.drain workflow build with
  | case1 build fresh queueIs => exact visited
  | case2 build edge pending fresh queueIs ih => exact ih (visited.step queueIs)

theorem exhaust (visited : Visits workflow start build) (noneWaits : build.queue.pending = []) :
    Visits workflow start (build.exhaust workflow) := by
  fun_induction Build.exhaust workflow build with
  | case1 build pending queueIs => exact visited
  | case2 build pending first rest queueIs ih =>
      have queueEmpty : build.queue = ⟨[], first :: rest⟩ := by
        rw [queueIs] at noneWaits ⊢
        cases noneWaits
        rfl
      exact ih (visited.refill queueEmpty).drain (pending_drain workflow _)

/-- No edge is queued that was not in the queue's scope from the start. -/
theorem queue_subset (visited : Visits workflow start build) :
    build.queue.pending ++ build.queue.fresh ⊆ start.queue.pending ++ start.queue.fresh := by
  induction visited with
  | start => exact List.Subset.refl _
  | @step build edge pending fresh _ queueIs ih =>
      rw [queueIs] at ih
      rw [queue_step_behind]
      exact fun other present =>
        ih (List.mem_cons_of_mem edge ((EdgeQueue.perm_enqueueAll _ _).subset present))
  | @refill build first rest _ queueIs ih =>
      rw [queueIs] at ih
      refine List.Subset.trans ?_ ih
      unfold Build.refill
      dsimp only
      split
      · rw [queueIs]
        exact (EdgeQueue.perm_enqueueWhere _ _).subset
      · rw [queue_restart, queueIs]
        split
        · exact List.Subset.refl _
        · exact List.subset_cons_self first rest

end Visits

theorem visits_main (workflow : Workflow) (progress : Progress) :
    Visits workflow (mainStart workflow progress) (main workflow progress) := by
  rw [main_eq]
  exact Visits.start.drain

theorem visits_component (workflow : Workflow) (component : Component) (progress : Progress) :
    Visits workflow (ofRoots workflow component progress)
      (Build.component workflow component progress) :=
  Visits.start.drain.exhaust (pending_drain workflow _)

end FlowGraph.Build
