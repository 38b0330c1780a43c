import FlowGraph.Proofs.Mirroring
import FlowGraph.Proofs.VisitedBuilds

/-!
Components of two workflows, one of which has some of the edges of the other. The larger
component may have more edges that dangle, so that its build goes on for longer, but with
nothing that shows.
-/

namespace FlowGraph

open FlowGraph.Expr

variable {same : IdentId → IdentId → Prop} {twin : EdgeId → EdgeId} {kept : EdgeId → Bool}
  {scope works : EdgeId → Prop} {small large : Workflow}

namespace Build

/-! ### Going on -/

section Components

variable {build image : Build} (embeds : Workflow.Embeds same twin kept small large)
include embeds

private theorem sourceOwner?_twin (edge : EdgeId) :
    sourceOwner? large (twin edge) = sourceOwner? small edge := by
  rw [sourceOwner?, sourceOwner?, ← embeds.resolveEdge]

omit embeds in
private theorem sourceOwner?_of_not_kept {edge : EdgeId} (idle : large.KeptOrIdle kept edge)
    (notKept : ¬ kept edge = true) : sourceOwner? large edge = none := by
  obtain ⟨cause, dangles⟩ := idle.resolve_left notKept
  rw [sourceOwner?, dangles]

private theorem canAttach_twin (expr : Expr) :
    canAttach large expr ∘ twin = canAttach small expr := by
  funext edge
  rw [Function.comp_apply]
  unfold canAttach
  rcases Workflow.rel_cases (embeds.edge? edge) with
    ⟨isNone, alsoNone⟩ | ⟨_, _, isEdge, alsoEdge, ends⟩
  · rw [isNone, alsoNone]
    rfl
  · rw [isEdge, alsoEdge, Option.any_some, Option.any_some, holdsSource, holdsSource,
      embeds.origin? ends.sourceNode]

theorem Mirrors.attach (mirrors : Mirrors twin kept works works build image) :
    Mirrors twin kept works works
      { build with queue := build.queue.enqueueWhere (canAttach small build.expr) }
      { image with queue := image.queue.enqueueWhere (canAttach large image.expr) } := by
  have attachesAlike : canAttach large image.expr ∘ twin = canAttach small build.expr := by
    rw [mirrors.expr, canAttach_twin embeds]
  refine ⟨mirrors.expr, mirrors.queue.enqueueWhere attachesAlike, ?_, ?_⟩
  · intro edge waits
    rcases List.mem_append.mp waits with waited | attached
    · exact mirrors.waiting edge waited
    · exact mirrors.inScope edge (List.mem_filter.mp attached).1
  · exact fun edge isFresh => mirrors.inScope edge (List.mem_filter.mp isFresh).1

private theorem Mirrors.restart_twin {first : EdgeId} {rest imageRest : List EdgeId}
    (mirrors : Mirrors twin kept works works build image)
    (isFresh : build.queue.fresh = first :: rest)
    (imageFresh : image.queue.fresh = twin first :: imageRest)
    (isKept : kept (twin first) = true) :
    Mirrors twin kept works works (build.restart small first rest)
      (image.restart large (twin first) imageRest) := by
  obtain ⟨sameExpr, ⟨pendingTwins, freshTwins⟩, waiting, inScope⟩ := mirrors
  rw [imageFresh] at inScope freshTwins
  rw [isFresh, List.filter_cons_of_pos isKept, List.map_cons, List.cons.injEq] at freshTwins
  have restInScope := fun edge inside => inScope edge (List.mem_cons_of_mem (twin first) inside)
  have sameOwner := sourceOwner?_twin embeds first
  have queueAfter := queue_restart small first rest build
  have imageQueueAfter := queue_restart large (twin first) imageRest image
  rw [sameOwner] at imageQueueAfter
  have exprAfter : (image.restart large (twin first) imageRest).expr =
      (build.restart small first rest).expr := by
    rw [expr_restart, expr_restart, sameOwner, sameExpr, embeds.hasDefaultExit]
  cases owner : sourceOwner? small first with
  | some start =>
      rw [owner] at queueAfter imageQueueAfter
      refine ⟨exprAfter, ?_, ?_, ?_⟩
      · rw [queueAfter, imageQueueAfter]
        refine ⟨?_, freshTwins.2⟩
        rw [List.filter_append, pendingTwins, List.filter_cons_of_pos isKept, List.filter_nil,
          List.map_append, List.map_singleton]
      · rw [imageQueueAfter]
        intro edge waits
        rcases List.mem_append.mp waits with waited | isFirst
        · exact waiting edge waited
        · exact List.mem_singleton.mp isFirst ▸ inScope (twin first) List.mem_cons_self
      · rw [imageQueueAfter]
        exact restInScope
  | none =>
      rw [owner] at queueAfter imageQueueAfter
      refine ⟨exprAfter, ?_, ?_, ?_⟩
      · rw [queueAfter, imageQueueAfter]
        exact ⟨pendingTwins, freshTwins.2⟩
      · rw [imageQueueAfter]
        exact waiting
      · rw [imageQueueAfter]
        exact restInScope

omit embeds in
private theorem Mirrors.restart_idle {other : EdgeId} {imageRest : List EdgeId}
    (mirrors : Mirrors twin kept works works build image)
    (imageFresh : image.queue.fresh = other :: imageRest)
    (noOwner : sourceOwner? large other = none) (notKept : ¬ kept other = true) :
    Mirrors twin kept works works build (image.restart large other imageRest) := by
  obtain ⟨sameExpr, ⟨pendingTwins, freshTwins⟩, waiting, inScope⟩ := mirrors
  rw [imageFresh] at inScope freshTwins
  rw [List.filter_cons_of_neg notKept] at freshTwins
  have imageQueueAfter := queue_restart large other imageRest image
  have exprAfter := expr_restart large other imageRest image
  rw [noOwner] at imageQueueAfter exprAfter
  refine ⟨exprAfter.trans sameExpr, ?_, ?_, ?_⟩
  · rw [imageQueueAfter]
    exact ⟨pendingTwins, freshTwins⟩
  · rw [imageQueueAfter]
    exact waiting
  · rw [imageQueueAfter]
    exact fun edge inside => inScope edge (List.mem_cons_of_mem other inside)

omit embeds in
private theorem refill_of_attaches {workflow : Workflow} {first : EdgeId} {rest : List EdgeId}
    (isFresh : build.queue.fresh = first :: rest)
    (attaches : build.queue.fresh.any (canAttach workflow build.expr) = true) :
    build.refill workflow first rest =
      { build with queue := build.queue.enqueueWhere (canAttach workflow build.expr) } := by
  rw [isFresh] at attaches
  rw [Build.refill, if_pos attaches, ← isFresh]

omit embeds in
private theorem refill_of_refused {workflow : Workflow} {first : EdgeId} {rest : List EdgeId}
    (isFresh : build.queue.fresh = first :: rest)
    (refused : ¬ build.queue.fresh.any (canAttach workflow build.expr) = true) :
    build.refill workflow first rest = build.restart workflow first rest := by
  rw [isFresh] at refused
  rw [Build.refill, if_neg refused]

/-- When edges are still fresh, the image goes on either like the build or with edges that
dangle only. -/
theorem Mirrors.refill (isolated : large.Isolated kept works works) {next : EdgeId}
    {imageRest : List EdgeId} (mirrors : Mirrors twin kept works works build image)
    (imageFresh : image.queue.fresh = next :: imageRest) :
    Mirrors twin kept works works build
        (image.refill large next imageRest) ∨
      ∃ first rest, build.queue.fresh = first :: rest ∧
        Mirrors twin kept works works (build.refill small first rest)
          (image.refill large next imageRest) := by
  have freshTwins := mirrors.queue.fresh
  by_cases imageAttaches : image.queue.fresh.any (canAttach large image.expr) = true
  · have attached := mirrors.attach embeds
    rw [refill_of_attaches imageFresh imageAttaches]
    by_cases attaches : build.queue.fresh.any (canAttach small build.expr) = true
    · right
      cases isFresh : build.queue.fresh with
      | nil =>
          rw [isFresh] at attaches
          cases attaches
      | cons first rest =>
          refine ⟨first, rest, rfl, ?_⟩
          rw [refill_of_attaches isFresh attaches]
          exact attached
    · left
      rw [EdgeQueue.enqueueWhere_of_refused attaches] at attached
      exact attached
  · rw [refill_of_refused imageFresh imageAttaches]
    by_cases isKept : kept next = true
    · right
      rw [imageFresh, List.filter_cons_of_pos isKept] at freshTwins
      obtain ⟨first, rest, isFresh, rfl, _⟩ := List.map_eq_cons_iff.mp freshTwins.symm
      refine ⟨first, rest, isFresh, ?_⟩
      -- What could be attached to the one could be attached to the other.
      have refused : ¬ build.queue.fresh.any (canAttach small build.expr) = true := by
        intro attaches
        obtain ⟨edge, inFresh, attach⟩ := List.any_eq_true.mp attaches
        have twinFresh : twin edge ∈ image.queue.fresh.filter kept :=
          mirrors.queue.fresh ▸ List.mem_map_of_mem inFresh
        have twinAttach : canAttach large image.expr (twin edge) = true := by
          rw [mirrors.expr, ← Function.comp_apply (f := canAttach large build.expr),
            canAttach_twin embeds]
          exact attach
        exact imageAttaches
          (List.any_eq_true.mpr ⟨twin edge, (List.mem_filter.mp twinFresh).1, twinAttach⟩)
      rw [refill_of_refused isFresh refused]
      exact mirrors.restart_twin embeds isFresh imageFresh isKept
    · have idle := isolated.idle next
        (mirrors.inScope next (by rw [imageFresh]; exact List.mem_cons_self))
      exact Or.inl
        (mirrors.restart_idle imageFresh (sourceOwner?_of_not_kept idle isKept) isKept)

/-- Both end with the same expression. By induction on the image, which may take more rounds. -/
theorem Mirrors.expr_exhaust (isolated : large.Isolated kept works works)
    (mirrors : Mirrors twin kept works works build image)
    (noneWaits : build.queue.pending = []) :
    (image.exhaust large).expr = (build.exhaust small).expr := by
  fun_induction Build.exhaust large image generalizing build with
  | case1 image pending imageQueueIs =>
      have freshTwins := mirrors.queue.fresh
      rw [imageQueueIs] at freshTwins
      rw [exhaust_of_fresh_eq_nil small (List.map_eq_nil_iff.mp freshTwins.symm)]
      exact mirrors.expr
  | case2 image pending next imageRest imageQueueIs ih =>
      have imageFresh : image.queue.fresh = next :: imageRest := by rw [imageQueueIs]
      rcases mirrors.refill embeds isolated imageFresh with same | ⟨first, rest, isFresh, refilled⟩
      · have drained := same.drain embeds isolated
        rw [drain_of_pending_eq_nil small noneWaits] at drained
        exact ih drained noneWaits
      · rw [exhaust_of_fresh_eq_cons small isFresh]
        exact ih (refilled.drain embeds isolated) (pending_drain small _)

end Components

end Build

/-! ### Roots -/

namespace Component

def restrict (kept : EdgeId → Bool) (component : Component) : Component :=
  component.filter fun entry => kept entry.1

private theorem map_fst_restrict (component : Component) :
    (component.restrict kept).map Prod.fst = (component.map Prod.fst).filter kept := by
  rw [restrict, List.filter_map]
  rfl

private theorem mem_roots {component : Component} {ident : IdentId} :
    ident ∈ component.roots ↔
      if (component.map fun entry => entry.2.sourceNode).filter
          (fun source => !(component.map fun entry => entry.2.targetNode).contains source) = [] then
        ident ∈ (component.map fun entry => entry.2.sourceNode).take 1
      else
        ident ∈ (component.map fun entry => entry.2.sourceNode).filter
          fun source => !(component.map fun entry => entry.2.targetNode).contains source := by
  unfold roots
  dsimp only
  generalize (component.map fun entry => entry.2.sourceNode).filter
    (fun source => !(component.map fun entry => entry.2.targetNode).contains source) = unreached
  split
  · rename_i noneLeft
    have isEmpty : unreached = [] := by
      cases unreached with
      | nil => rfl
      | cons source rest =>
          rw [List.eraseDups_cons] at noneLeft
          cases noneLeft
    rw [if_pos isEmpty]
  · rename_i someLeft
    have notEmpty : unreached ≠ [] := by
      rintro rfl
      exact someLeft rfl
    rw [if_neg notEmpty, List.mem_eraseDups]

def Twins (same : IdentId → IdentId → Prop) (twin : EdgeId → EdgeId)
    (entry image : EdgeId × Edge) : Prop :=
  image.1 = twin entry.1 ∧ Workflow.SameEnds same entry.2 image.2

private theorem map_fst_of_twins {component image : Component}
    (twins : List.Forall₂ (Twins same twin) component image) :
    image.map Prod.fst = (component.map Prod.fst).map twin := by
  induction twins with
  | nil => rfl
  | cons alike _ ih => rw [List.map_cons, List.map_cons, List.map_cons, ih, alike.1]

private theorem mem_roots_of_twins (unique : Relator.BiUnique same) {component image : Component}
    (twins : List.Forall₂ (Twins same twin) component image) {left right : IdentId}
    (alike : same left right) : left ∈ component.roots ↔ right ∈ image.roots := by
  have sources : List.Forall₂ same (component.map fun entry => entry.2.sourceNode)
      (image.map fun entry => entry.2.sourceNode) :=
    List.rel_map (fun _ _ alike => alike.2.sourceNode) twins
  have targets : List.Forall₂ same (component.map fun entry => entry.2.targetNode)
      (image.map fun entry => entry.2.targetNode) :=
    List.rel_map (fun _ _ alike => alike.2.targetNode) twins
  have unreached := List.rel_filter (p := fun source =>
      !(component.map fun entry => entry.2.targetNode).contains source)
    (q := fun source => !(image.map fun entry => entry.2.targetNode).contains source)
    (fun source other alike => by simp [List.rel_mem unique alike targets]) sources
  rw [mem_roots, mem_roots]
  by_cases isEmpty : (component.map fun entry => entry.2.sourceNode).filter
      (fun source => !(component.map fun entry => entry.2.targetNode).contains source) = []
  · rw [isEmpty, List.forall₂_nil_left_iff] at unreached
    rw [if_pos isEmpty, if_pos unreached]
    exact List.rel_mem unique alike (List.forall₂_take 1 sources)
  · have alsoSome : (image.map fun entry => entry.2.sourceNode).filter
        (fun source => !(image.map fun entry => entry.2.targetNode).contains source) ≠ [] := by
      intro none
      rw [none, List.forall₂_nil_right_iff] at unreached
      exact isEmpty unreached
    rw [if_neg isEmpty, if_neg alsoSome]
    exact List.rel_mem unique alike unreached

private theorem twins_rootEdges (unique : Relator.BiUnique same) {component image : Component}
    (twins : List.Forall₂ (Twins same twin) component image) :
    List.Forall₂ (Twins same twin) component.rootEdges image.rootEdges := by
  refine List.rel_filter ?_ twins
  intro entry other alike
  simp [mem_roots_of_twins unique twins alike.2.sourceNode]

end Component

namespace Build

structure StartsAlike (same : IdentId → IdentId → Prop) (twin : EdgeId → EdgeId)
    (kept : EdgeId → Bool) (works : EdgeId → Prop) (component image : Component) : Prop where
  twins : List.Forall₂ (Component.Twins same twin) component (image.restrict kept)
  roots : (image.restrict kept).rootEdges = image.rootEdges.restrict kept
  worked : ∀ edge ∈ image.map Prod.fst, works edge

theorem StartsAlike.of_kept {component image : Component}
    (twins : List.Forall₂ (Component.Twins same twin) component image)
    (allKept : ∀ edge ∈ image.map Prod.fst, kept edge = true)
    (worked : ∀ edge ∈ image.map Prod.fst, works edge) :
    StartsAlike same twin kept works component image := by
  have all : image.restrict kept = image :=
    List.filter_eq_self.mpr fun entry inside => allKept entry.1 (List.mem_map_of_mem inside)
  have allRoots : image.rootEdges.restrict kept = image.rootEdges :=
    List.filter_eq_self.mpr fun entry isRootEdge =>
      allKept entry.1 (List.mem_map_of_mem (List.mem_filter.mp isRootEdge).1)
  refine ⟨?_, ?_, worked⟩
  · rw [all]
    exact twins
  · rw [all, allRoots]

section StartsAlike

variable (embeds : Workflow.Embeds same twin kept small large) {component image : Component}
  (alike : StartsAlike same twin kept works component image)
  (isolated : large.Isolated kept scope works)
include embeds alike

private theorem StartsAlike.rootIds :
    (image.rootEdges.map Prod.fst).filter kept = (component.rootEdges.map Prod.fst).map twin := by
  rw [← Component.map_fst_restrict, ← alike.roots]
  exact Component.map_fst_of_twins (Component.twins_rootEdges embeds.unique alike.twins)

include isolated in
theorem StartsAlike.owners :
    (image.rootEdges.map Prod.fst).filterMap (sourceOwner? large) =
      (component.rootEdges.map Prod.fst).filterMap (sourceOwner? small) := by
  have onlyKept : (image.rootEdges.map Prod.fst).filterMap (sourceOwner? large) =
      ((image.rootEdges.map Prod.fst).filter kept).filterMap (sourceOwner? large) := by
    rw [List.filterMap_filter]
    apply List.filterMap_congr
    intro edge isRootEdge
    by_cases isKept : kept edge = true
    · rw [if_pos isKept]
    · have inImage := (rootEdges_sublist image).subset isRootEdge
      have idle := isolated.idle edge (alike.worked edge inImage)
      rw [if_neg isKept, sourceOwner?_of_not_kept idle isKept]
  rw [onlyKept, alike.rootIds embeds, List.filterMap_map]
  congr 1
  funext edge
  exact sourceOwner?_twin embeds edge

include isolated in
private theorem mirrors_ofRoots (progress other : Progress) :
    Mirrors twin kept works works (ofRoots small component progress)
      (ofRoots large image other) := by
  have ids := Component.map_fst_of_twins alike.twins
  rw [Component.map_fst_restrict] at ids
  have rootIds := alike.rootIds embeds
  have isRootAlike : ∀ edge ∈ component.map Prod.fst,
      (image.rootEdges.map Prod.fst).contains (twin edge) =
        (component.rootEdges.map Prod.fst).contains edge := by
    intro edge inside
    have isKept := kept_twin_of_mem ids inside
    rw [Bool.eq_iff_iff, List.contains_iff_mem, List.contains_iff_mem,
      twin_mem_iff rootIds embeds.injective isKept]
  have freshTwins : ((image.map Prod.fst).filter fun edge =>
        !(image.rootEdges.map Prod.fst).contains edge).filter kept =
      ((component.map Prod.fst).filter fun edge =>
        !(component.rootEdges.map Prod.fst).contains edge).map twin := by
    rw [List.filter_comm, ids, List.filter_map]
    congr 1
    apply List.filter_congr
    intro edge inside
    rw [Function.comp_apply, isRootAlike edge inside]
  refine ⟨?_, ⟨rootIds, freshTwins⟩, ?_, ?_⟩
  · rw [ofRoots, ofRoots]
    dsimp only
    rw [fst_seeds, fst_seeds, alike.owners embeds isolated, embeds.hasDefaultExit]
  · exact fun edge waits => alike.worked edge ((rootEdges_sublist image).subset waits)
  · exact fun edge isFresh => alike.worked edge (List.mem_filter.mp isFresh).1

include isolated in
private theorem expr_component_of_startsAlike (progress other : Progress) :
    (Build.component large image other).expr = (Build.component small component progress).expr :=
  have started := mirrors_ofRoots embeds alike isolated progress other
  (started.drain embeds isolated.within).expr_exhaust embeds isolated.within (pending_drain small _)

end StartsAlike

end Build

def Workflow.componentExpr (workflow : Workflow) (component : Component) : Expr :=
  (Build.component workflow component Progress.start).expr

namespace Build

theorem componentExpr_of_startsAlike (embeds : Workflow.Embeds same twin kept small large)
    {component image : Component} (alike : StartsAlike same twin kept works component image)
    (isolated : large.Isolated kept scope works) :
    large.componentExpr image = small.componentExpr component :=
  expr_component_of_startsAlike embeds alike isolated Progress.start Progress.start

/-- Builds of a component that start with different progress mirror each other. -/
theorem expr_component {workflow : Workflow} (coherent : workflow.Coherent)
    (component : Component) (progress : Progress) :
    (Build.component workflow component progress).expr = workflow.componentExpr component := by
  have twins : List.Forall₂ (Component.Twins Eq id) component component :=
    List.forall₂_same.mpr fun entry _ => ⟨rfl, Workflow.sameEnds_self entry.2⟩
  exact expr_component_of_startsAlike (Workflow.embeds_self coherent)
    (.of_kept twins (fun _ _ => rfl) fun _ _ => trivial)
    (Workflow.isolated_of_all_kept fun _ => True) Progress.start progress

end Build

end FlowGraph
