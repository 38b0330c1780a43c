import FlowGraph.Compilation
import FlowGraph.Proofs.Building
import FlowGraph.Proofs.Embedding
import Mathlib.Data.List.Basic

/-!
Building the same expression in two workflows, one of which has some of the edges of the
other. The larger build may work on more edges as long as those dangle: both then place the
same edges in the same order, and with the same outcome.
-/

namespace FlowGraph

open FlowGraph.Expr

variable {same : IdentId → IdentId → Prop} {twin : EdgeId → EdgeId} {kept : EdgeId → Bool}
  {scope works : EdgeId → Prop} {small large : Workflow}

/-! ### Twins among kept edges -/

section Twins

variable {edges images : List EdgeId} (twins : images.filter kept = edges.map twin) {edge : EdgeId}
include twins

theorem kept_twin_of_mem (inside : edge ∈ edges) : kept (twin edge) = true := by
  have isTwin : twin edge ∈ images.filter kept := twins ▸ List.mem_map_of_mem inside
  exact (List.mem_filter.mp isTwin).2

theorem twin_mem_iff (injective : Function.Injective twin) (isKept : kept (twin edge) = true) :
    twin edge ∈ images ↔ edge ∈ edges := by
  have inKept : twin edge ∈ images ↔ twin edge ∈ images.filter kept := by
    rw [List.mem_filter, and_iff_left isKept]
  rw [inKept, twins, List.mem_map_of_injective injective]

end Twins

/-! ### Queues -/

namespace EdgeQueue

theorem enqueueWhere_of_refused {queue : EdgeQueue} {test : EdgeId → Bool}
    (refused : ¬ queue.fresh.any test = true) : queue.enqueueWhere test = queue := by
  have none : ∀ edge ∈ queue.fresh, ¬ test edge = true := by
    simpa using refused
  rw [enqueueWhere, List.filter_eq_nil_iff.mpr none, List.append_nil,
    List.filter_eq_self.mpr fun edge isFresh => by simp [none edge isFresh]]

/-- What waits and what is fresh in a queue are the kept edges of another one. -/
structure Mirrors (twin : EdgeId → EdgeId) (kept : EdgeId → Bool) (queue image : EdgeQueue) :
    Prop where
  pending : image.pending.filter kept = queue.pending.map twin
  fresh : image.fresh.filter kept = queue.fresh.map twin

namespace Mirrors

variable {queue image : EdgeQueue} (mirrors : Mirrors twin kept queue image)
include mirrors

private theorem enqueue_twin (injective : Function.Injective twin) {edge : EdgeId}
    (isKept : kept (twin edge) = true) :
    Mirrors twin kept (queue.enqueue edge) (image.enqueue (twin edge)) := by
  have freshAlike : twin edge ∈ image.fresh ↔ edge ∈ queue.fresh :=
    twin_mem_iff mirrors.fresh injective isKept
  unfold enqueue
  by_cases isFresh : edge ∈ queue.fresh
  · rw [if_pos (freshAlike.mpr isFresh), if_pos isFresh]
    constructor
    · rw [List.filter_append, mirrors.pending, List.filter_cons_of_pos isKept, List.filter_nil,
        List.map_append, List.map_singleton]
    · rw [← List.erase_filter, mirrors.fresh, List.map_erase injective]
  · rw [if_neg (mt freshAlike.mp isFresh), if_neg isFresh]
    exact mirrors

private theorem enqueue_other {other : EdgeId} (notKept : ¬ kept other = true) :
    Mirrors twin kept queue (image.enqueue other) := by
  unfold enqueue
  split
  · have notInKept : other ∉ image.fresh.filter kept := fun inside =>
      notKept (List.mem_filter.mp inside).2
    constructor
    · rw [List.filter_append, List.filter_cons_of_neg notKept, List.filter_nil,
        List.append_nil, mirrors.pending]
    · rw [← List.erase_filter, List.erase_of_not_mem notInKept, mirrors.fresh]
  · exact mirrors

theorem enqueueAll (injective : Function.Injective twin) {edges others : List EdgeId}
    (twins : others.filter kept = edges.map twin) :
    Mirrors twin kept (queue.enqueueAll edges) (image.enqueueAll others) := by
  unfold EdgeQueue.enqueueAll
  -- By induction on the longer list, in which edges that are not kept come between the others.
  induction others generalizing edges queue image with
  | nil =>
      have none : edges = [] := List.map_eq_nil_iff.mp twins.symm
      rw [none]
      exact mirrors
  | cons other others ih =>
      by_cases isKept : kept other = true
      · rw [List.filter_cons_of_pos isKept] at twins
        obtain ⟨edge, rest, rfl, rfl, restTwins⟩ := List.map_eq_cons_iff.mp twins.symm
        exact ih (mirrors.enqueue_twin injective isKept) restTwins.symm
      · rw [List.filter_cons_of_neg isKept] at twins
        exact ih (mirrors.enqueue_other isKept) twins

theorem enqueueWhere {test imageTest : EdgeId → Bool} (alike : imageTest ∘ twin = test) :
    Mirrors twin kept (queue.enqueueWhere test) (image.enqueueWhere imageTest) where
  pending := by
    change (image.pending ++ image.fresh.filter imageTest).filter kept =
      (queue.pending ++ queue.fresh.filter test).map twin
    rw [List.filter_append, List.filter_comm, mirrors.pending, mirrors.fresh, List.filter_map,
      alike, List.map_append]
  fresh := by
    change (image.fresh.filter fun edge => !imageTest edge).filter kept =
      (queue.fresh.filter fun edge => !test edge).map twin
    rw [List.filter_comm, mirrors.fresh, List.filter_map, ← alike]
    rfl

end Mirrors

end EdgeQueue

/-! ### One step -/

def Workflow.KeptOrIdle (large : Workflow) (kept : EdgeId → Bool) (edge : EdgeId) : Prop :=
  kept edge = true ∨ ∃ cause, large.resolveEdge edge = .error cause

/-- The edges that are worked on get by with those that are kept: the others among them dangle,
within a scope no others are queued behind them, and the target of one of them is linked back
to its source by a kept edge if by any. -/
structure Workflow.Isolated (large : Workflow) (kept : EdgeId → Bool)
    (scope works : EdgeId → Prop) : Prop where
  idle : ∀ edge, works edge → large.KeptOrIdle kept edge
  onward : ∀ edge resolved, works edge → large.resolveEdge edge = .ok resolved →
    ∀ next ∈ large.outgoing resolved.target, scope next → works next
  back : ∀ edge resolved node, works edge → large.resolveEdge edge = .ok resolved →
    resolved.source.bind Reference.node? = some node →
      ∀ other, large.Links other resolved.target node →
        ∃ another, kept another = true ∧ large.Links another resolved.target node

theorem Workflow.isolated_of_all_kept (scope : EdgeId → Prop) :
    large.Isolated (fun _ => true) scope fun _ => True :=
  ⟨fun _ _ => Or.inl rfl, fun _ _ _ _ _ _ _ => trivial,
    fun _ _ _ _ _ _ other links => ⟨other, rfl, links⟩⟩

theorem Workflow.Isolated.within (isolated : large.Isolated kept scope works) :
    large.Isolated kept works works :=
  ⟨isolated.idle, fun _ _ _ _ _ _ inScope => inScope, isolated.back⟩

namespace Build

/-- A build and its image in a workflow with more edges, of which those in the scope may still
be queued. -/
structure Mirrors (twin : EdgeId → EdgeId) (kept : EdgeId → Bool) (scope works : EdgeId → Prop)
    (build image : Build) : Prop where
  expr : image.expr = build.expr
  queue : build.queue.Mirrors twin kept image.queue
  waiting : ∀ edge ∈ image.queue.pending, works edge
  inScope : ∀ edge ∈ image.queue.fresh, scope edge

private theorem expr_step (workflow : Workflow) (build : Build) {edge : EdgeId}
    {resolved : ResolvedEdge} (resolves : workflow.resolveEdge edge = .ok resolved) :
    (build.step workflow edge).expr =
      (workflow.surroundings.foldAtTop resolved.source resolved.target build.expr).getD
        build.expr := by
  cases found : workflow.surroundings.foldAtTop resolved.source resolved.target build.expr with
  | some folded => rw [step_of_placed build resolves found, Option.getD_some]
  | none => rw [step_of_unplaced build resolves found, Option.getD_none]

private theorem Mirrors.idle_step {build image : Build}
    (mirrors : Mirrors twin kept scope works build image) {other : EdgeId}
    {pending fresh : List EdgeId} (imageQueueIs : image.queue = ⟨other :: pending, fresh⟩)
    {cause : DanglingCause} (dangles : large.resolveEdge other = .error cause)
    (notKept : ¬ kept other = true) :
    Mirrors twin kept scope works build
      ({ image with queue := ⟨pending, fresh⟩ }.step large other) := by
  obtain ⟨sameExpr, ⟨pendingTwins, freshTwins⟩, waiting, inScope⟩ := mirrors
  rw [imageQueueIs] at pendingTwins freshTwins waiting inScope
  rw [List.filter_cons_of_neg notKept] at pendingTwins
  rw [step_of_dangling _ dangles]
  exact ⟨sameExpr, ⟨pendingTwins, freshTwins⟩,
    fun edge waits => waiting edge (List.mem_cons_of_mem other waits), inScope⟩

section Steps

variable {build image : Build} (embeds : Workflow.Embeds same twin kept small large)
  (isolated : large.Isolated kept scope works)
include embeds isolated

private theorem foldAtTop_of_isolated {edge : EdgeId} {resolved : ResolvedEdge}
    (isWorked : works (twin edge)) (resolves : small.resolveEdge edge = .ok resolved)
    (expr : Expr) :
    large.surroundings.foldAtTop resolved.source resolved.target expr =
      small.surroundings.foldAtTop resolved.source resolved.target expr := by
  have twinResolves := (embeds.resolveEdge edge).symm.trans resolves
  rw [Workflow.surroundings, Workflow.surroundings, ← embeds.hasDefaultExit]
  apply Surroundings.fold_congr_hasLink
  intro node isNode
  exact (embeds.hasLink (isolated.back _ _ _ isWorked twinResolves isNode)).symm

private theorem expr_step_twin {edge : EdgeId} (isWorked : works (twin edge))
    (sameExpr : image.expr = build.expr) :
    (image.step large (twin edge)).expr = (build.step small edge).expr := by
  have resolvesAlike := embeds.resolveEdge edge
  cases resolves : small.resolveEdge edge with
  | error cause =>
      rw [step_of_dangling _ resolves, step_of_dangling _ (resolvesAlike.symm.trans resolves)]
      exact sameExpr
  | ok resolved =>
      rw [expr_step large image (resolvesAlike.symm.trans resolves),
        expr_step small build resolves, sameExpr,
        foldAtTop_of_isolated embeds isolated isWorked resolves]

omit isolated in
private theorem filter_behind_twin (edge : EdgeId) :
    (behind large (twin edge)).filter kept = (behind small edge).map twin := by
  rw [behind, behind, ← embeds.resolveEdge]
  cases small.resolveEdge edge with
  | error cause => rfl
  | ok resolved => exact embeds.outgoing resolved.target

omit embeds in
private theorem works_of_mem_behind {edge next : EdgeId} (isWorked : works edge)
    (isBehind : next ∈ behind large edge) (inScope : scope next) : works next := by
  obtain ⟨resolved, resolves, leaves⟩ := mem_behind.mp isBehind
  exact isolated.onward edge resolved isWorked resolves next leaves inScope

theorem Mirrors.step {edge : EdgeId} {pending fresh imagePending imageFresh : List EdgeId}
    (mirrors : Mirrors twin kept scope works build image)
    (queueIs : build.queue = ⟨edge :: pending, fresh⟩)
    (imageQueueIs : image.queue = ⟨twin edge :: imagePending, imageFresh⟩)
    (isKept : kept (twin edge) = true) :
    Mirrors twin kept scope works ({ build with queue := ⟨pending, fresh⟩ }.step small edge)
      ({ image with queue := ⟨imagePending, imageFresh⟩ }.step large (twin edge)) := by
  obtain ⟨sameExpr, ⟨pendingTwins, freshTwins⟩, waiting, inScope⟩ := mirrors
  rw [queueIs, imageQueueIs] at pendingTwins freshTwins
  rw [imageQueueIs] at waiting inScope
  rw [List.filter_cons_of_pos isKept, List.map_cons, List.cons.injEq] at pendingTwins
  have isWorked := waiting (twin edge) List.mem_cons_self
  have before : EdgeQueue.Mirrors twin kept ⟨pending, fresh⟩ ⟨imagePending, imageFresh⟩ :=
    ⟨pendingTwins.2, freshTwins⟩
  have imageQueueAfter := queue_step_behind large
    { image with queue := ⟨imagePending, imageFresh⟩ } (twin edge)
  refine ⟨expr_step_twin embeds isolated isWorked sameExpr, ?_, ?_, ?_⟩
  · rw [imageQueueAfter, queue_step_behind]
    exact before.enqueueAll embeds.injective (filter_behind_twin embeds edge)
  · rw [imageQueueAfter]
    intro next waits
    rcases EdgeQueue.mem_pending_enqueueAll waits with waited | ⟨isBehind, isFresh⟩
    · exact waiting next (List.mem_cons_of_mem _ waited)
    · exact works_of_mem_behind isolated isWorked isBehind (inScope next isFresh)
  · rw [imageQueueAfter]
    intro next isFresh
    have sublist := EdgeQueue.fresh_enqueueAll_sublist ⟨imagePending, imageFresh⟩
      (behind large (twin edge))
    exact inScope next (sublist.subset isFresh)

/-- The image may have more to do, but nothing that shows. -/
theorem Mirrors.drain (mirrors : Mirrors twin kept scope works build image) :
    Mirrors twin kept scope works (build.drain small) (image.drain large) := by
  fun_induction Build.drain large image generalizing build with
  | case1 image fresh imageQueueIs =>
      have pendingTwins := mirrors.queue.pending
      rw [imageQueueIs] at pendingTwins
      rw [drain_of_pending_eq_nil small (List.map_eq_nil_iff.mp pendingTwins.symm)]
      exact mirrors
  | case2 image other pending fresh imageQueueIs ih =>
      by_cases isKept : kept other = true
      · have pendingTwins := mirrors.queue.pending
        rw [imageQueueIs, List.filter_cons_of_pos isKept] at pendingTwins
        obtain ⟨edge, rest, waits, rfl, _⟩ := List.map_eq_cons_iff.mp pendingTwins.symm
        rw [drain_of_pending_eq_cons small waits]
        exact ih (mirrors.step embeds isolated (by rw [← waits]) imageQueueIs isKept)
      · have isWorked := mirrors.waiting other (by rw [imageQueueIs]; exact List.mem_cons_self)
        obtain ⟨cause, dangles⟩ := (isolated.idle other isWorked).resolve_left isKept
        exact ih (mirrors.idle_step imageQueueIs dangles isKept)

end Steps

/-! ### The main expression -/

def triggersLeft (workflow : Workflow) (edges : List EdgeId) : List Reference :=
  edges.filterMap fun edge =>
    ((workflow.edge? edge).bind fun entry => workflow.lookupTrigger? entry.sourceNode).map
      Reference.trigger

private theorem triggersLeft_twins (embeds : Workflow.Embeds same twin kept small large)
    (edges : List EdgeId) : triggersLeft large (edges.map twin) = triggersLeft small edges := by
  rw [triggersLeft, triggersLeft, List.filterMap_map]
  congr 1
  funext edge
  rw [Function.comp_apply]
  rcases Workflow.rel_cases (embeds.edge? edge) with
    ⟨isNone, alsoNone⟩ | ⟨_, _, isEdge, alsoEdge, ends⟩
  · rw [isNone, alsoNone]
    rfl
  · rw [isEdge, alsoEdge, Option.bind_some, Option.bind_some,
      embeds.lookupTrigger? ends.sourceNode]

section Main

variable (embeds : Workflow.Embeds same twin kept small large)
  (entriesWorked : ∀ edge ∈ large.entryEdges, works edge)
  (sameTriggers : (triggersLeft large (large.entryEdges.filter kept)).eraseDups =
    (triggersLeft large large.entryEdges).eraseDups)
include embeds entriesWorked sameTriggers

private theorem mirrors_mainStart (everywhere : ∀ edge, scope edge) {progress other : Progress}
    (unused : progress.processed = []) (alsoUnused : other.processed = []) :
    Mirrors twin kept scope works (mainStart small progress) (mainStart large other) := by
  have triggers : (entryTriggers small).eraseDups = (entryTriggers large).eraseDups := by
    rw [embeds.entryEdges, triggersLeft_twins embeds] at sameTriggers
    exact sameTriggers
  have isEntryAlike : ∀ edge ∈ small.edges.ids,
      large.entryEdges.contains (twin edge) = small.entryEdges.contains edge := by
    intro edge inIds
    have isKept := kept_twin_of_mem embeds.ids inIds
    rw [Bool.eq_iff_iff, List.contains_iff_mem, List.contains_iff_mem,
      twin_mem_iff embeds.entryEdges embeds.injective isKept]
  refine ⟨?_, ⟨embeds.entryEdges, ?_⟩, entriesWorked, fun edge _ => everywhere edge⟩
  · rw [mainStart, mainStart, ← embeds.hasDefaultExit]
    exact (flatten_ofReference_congr _ triggers).symm
  · simp only [mainStart, Progress.isProcessed, unused, alsoUnused, List.contains_nil,
      Bool.not_false, Bool.true_and]
    rw [List.filter_comm, embeds.ids, List.filter_map]
    congr 1
    apply List.filter_congr
    intro edge inIds
    rw [Function.comp_apply, isEntryAlike edge inIds]

theorem expr_mainBuild_of_triggers (isolated : large.Isolated kept scope works)
    (everywhere : ∀ edge, scope edge) : large.mainBuild.expr = small.mainBuild.expr := by
  rw [Workflow.mainBuild, Workflow.mainBuild, main_eq, main_eq]
  exact ((mirrors_mainStart embeds entriesWorked sameTriggers everywhere rfl rfl).drain embeds
    isolated).expr

end Main

theorem expr_mainBuild_of_embeds (embeds : Workflow.Embeds same twin kept small large)
    (isolated : large.Isolated kept (fun _ => True) (kept · = true))
    (entriesKept : ∀ edge ∈ large.entryEdges, kept edge = true) :
    large.mainBuild.expr = small.mainBuild.expr := by
  apply expr_mainBuild_of_triggers embeds entriesKept _ isolated fun _ => trivial
  rw [List.filter_eq_self.mpr entriesKept]

end Build

end FlowGraph
