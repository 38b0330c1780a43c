import FlowGraph.Document.Builder
import FlowGraph.Proofs.TwinClasses

/-!
Edges that dangle. They have no place in any expression, and deleting them changes nothing about
the graphs that are denoted. Whether two nodes are linked in a circle and how the leftover edges
hang together is asked of all edges, though. The expressions stay the same if the edges that
resolve already decide this, which for the main expression is said of workflows where the edges
that resolve leave the same triggers as all of them.
-/

namespace FlowGraph

open FlowGraph.Build FlowGraph.Expr

variable {same : IdentId → IdentId → Prop} {twin : EdgeId → EdgeId} {small large : Workflow}

namespace Workflow

/-! ### What the edges that resolve decide -/

section

variable (workflow : Workflow)

def resolves (edge : EdgeId) : Bool := (workflow.resolveEdge edge).isOk

private theorem keptOrIdle_resolves (edge : EdgeId) :
    workflow.KeptOrIdle workflow.resolves edge := by
  rw [KeptOrIdle, resolves, isOk_resolveEdge_iff]
  cases workflow.resolveEdge edge with
  | ok resolved => exact Or.inl ⟨resolved, rfl⟩
  | error cause => exact Or.inr ⟨cause, rfl⟩

/-- The triggers that entry edges leave are left by entry edges that resolve, and come up in the
same order with these alone. -/
def SeedsResolve : Prop :=
  (triggersLeft workflow (workflow.entryEdges.filter workflow.resolves)).eraseDups =
    (triggersLeft workflow workflow.entryEdges).eraseDups

/-- Where any edge links the target of one of the given edges back to its source, an edge that
resolves does. -/
def BackLinksResolve (edges : List EdgeId) : Prop :=
  ∀ edge ∈ edges, ∀ resolved ∈ (workflow.resolveEdge edge).toOption,
    ∀ node ∈ resolved.source.bind Reference.node?,
      workflow.hasLink resolved.target node = true →
        ∃ other ∈ workflow.edges.ids,
          workflow.resolves other = true ∧ workflow.Links other resolved.target node

def resolvedClasses : List Component :=
  (Component.partition (leftover workflow workflow.mainBuild.progress)).map
    (Component.restrict workflow.resolves)

/-- The leftover edges that resolve form the same classes when those that dangle are left out,
and the same ones of them leave a root. -/
structure ClassesResolve : Prop where
  classes : workflow.resolvedClasses.filter (fun group => !group.isEmpty) =
    Component.partition
      (Component.restrict workflow.resolves (leftover workflow workflow.mainBuild.progress))
  roots : ∀ group ∈ Component.partition (leftover workflow workflow.mainBuild.progress),
    (group.restrict workflow.resolves).rootEdges = group.rootEdges.restrict workflow.resolves

end

section

variable {workflow : Workflow}

private theorem resolves_of_resolveEdge {edge : EdgeId} {resolved : ResolvedEdge}
    (resolves : workflow.resolveEdge edge = .ok resolved) : workflow.resolves edge = true :=
  isOk_resolveEdge_iff.mpr ⟨resolved, resolves⟩

private theorem links_iff {edge : EdgeId} {source target : NodeId} :
    workflow.Links edge source target ↔
      ((workflow.edge? edge).any fun entry => (workflow.node? source).any fun sourceEntry =>
        (workflow.node? target).any fun targetEntry =>
          entry.sourceNode == sourceEntry.ident && entry.targetNode == targetEntry.ident) =
        true := by
  simp only [Links, Option.any_eq_true, Bool.and_eq_true, beq_iff_eq]
  constructor
  · rintro ⟨entry, sourceEntry, targetEntry, found, isSource, isTarget, ends⟩
    exact ⟨entry, found, sourceEntry, isSource, targetEntry, isTarget, ends⟩
  · rintro ⟨entry, found, sourceEntry, isSource, targetEntry, isTarget, ends⟩
    exact ⟨entry, sourceEntry, targetEntry, found, isSource, isTarget, ends⟩

instance {edge : EdgeId} {source target : NodeId} : Decidable (workflow.Links edge source target) :=
  decidable_of_iff' _ links_iff

instance : Decidable workflow.SeedsResolve := inferInstanceAs (Decidable (_ = _))

instance {edges : List EdgeId} : Decidable (workflow.BackLinksResolve edges) :=
  List.decidableBAll _ _

instance : Decidable workflow.ClassesResolve :=
  decidable_of_iff (_ ∧ _) ⟨fun ⟨classes, roots⟩ => ⟨classes, roots⟩,
    fun resolve => ⟨resolve.classes, resolve.roots⟩⟩

private theorem isolated_resolves {edges : List EdgeId}
    (backLinks : workflow.BackLinksResolve edges) (scope : EdgeId → Prop)
    (onward : ∀ edge resolved, edge ∈ edges → workflow.resolveEdge edge = .ok resolved →
      ∀ next ∈ workflow.outgoing resolved.target, scope next → next ∈ edges) :
    workflow.Isolated workflow.resolves scope (· ∈ edges) where
  idle := fun edge _ => workflow.keptOrIdle_resolves edge
  onward := onward
  back := by
    intro edge resolved node inside resolves isNode other links
    have isResolved : resolved ∈ (workflow.resolveEdge edge).toOption := by
      rw [resolves]
      rfl
    obtain ⟨another, _, found⟩ :=
      backLinks edge inside resolved isResolved node isNode (hasLink_iff.mpr ⟨other, links⟩)
    exact ⟨another, found⟩

end

end Workflow

/-! ### Components -/

private theorem Workflow.componentExpr_nil (workflow : Workflow) :
    workflow.componentExpr [] = .empty := by
  have noneWaits : (ofRoots workflow [] Progress.start).queue.pending = [] := rfl
  have noneFresh : (ofRoots workflow [] Progress.start).queue.fresh = [] := rfl
  rw [Workflow.componentExpr, Build.component, drain_of_pending_eq_nil workflow noneWaits,
    exhaust_of_fresh_eq_nil workflow noneFresh]
  rfl

private theorem exprs_of_restrict {kept : EdgeId → Bool} {scope works : EdgeId → Prop}
    (embeds : Workflow.Embeds same twin kept small large)
    (isolated : large.Isolated kept scope works) {groups components : List Component}
    (twins : List.Forall₂ (List.Forall₂ (Component.Twins same twin)) components
      ((groups.map (Component.restrict kept)).filter fun group => !group.isEmpty))
    (roots : ∀ group ∈ groups, (group.restrict kept).rootEdges = group.rootEdges.restrict kept)
    (worked : ∀ group ∈ groups, ∀ edge ∈ group.map Prod.fst, works edge) :
    (groups.map large.componentExpr).filter (fun expr => !expr.isEmpty) =
      (components.map small.componentExpr).filter fun expr => !expr.isEmpty := by
  induction groups generalizing components with
  | nil =>
      rw [List.map_nil, List.filter_nil, List.forall₂_nil_right_iff] at twins
      rw [twins, List.map_nil, List.map_nil]
  | cons group groups ih =>
      have laterRoots := fun other later => roots other (List.mem_cons_of_mem group later)
      have laterWorked := fun other later => worked other (List.mem_cons_of_mem group later)
      have sameExpr : ∀ component,
          List.Forall₂ (Component.Twins same twin) component (group.restrict kept) →
            large.componentExpr group = small.componentExpr component := fun component isTwin =>
        componentExpr_of_startsAlike embeds ⟨isTwin, roots group List.mem_cons_self,
          worked group List.mem_cons_self⟩ isolated
      rw [List.map_cons] at twins ⊢
      by_cases isEmpty : group.restrict kept = []
      · have nothing : List.Forall₂ (Component.Twins same twin) [] (group.restrict kept) := by
          rw [isEmpty]
          exact .nil
        rw [List.filter_cons_of_neg (by simp [isEmpty])] at twins
        rw [sameExpr [] nothing, Workflow.componentExpr_nil,
          List.filter_cons_of_neg (by simp [isEmpty_eq_true_iff])]
        exact ih twins laterRoots laterWorked
      · rw [List.filter_cons_of_pos (by simpa using isEmpty), List.forall₂_cons_right_iff] at twins
        obtain ⟨component, components, isTwin, restTwins, rfl⟩ := twins
        rw [List.map_cons, List.filter_cons, List.filter_cons, sameExpr component isTwin,
          ih restTwins laterRoots laterWorked]

private theorem components_of_classesResolve
    (embeds : Workflow.Embeds same twin large.resolves small large)
    (backLinks : large.BackLinksResolve
      ((leftover large large.mainBuild.progress).map Prod.fst))
    (classesResolve : large.ClassesResolve) :
    large.compile.components = small.compile.components := by
  have isolated := Workflow.isolated_resolves backLinks
    (· ∈ (leftover large large.mainBuild.progress).map Prod.fst) fun _ _ _ _ _ _ isLeft => isLeft
  have leftTwins := embeds.twins_leftover fun _ _ => Workflow.resolves_of_resolveEdge
  have twins := Component.twins_partition embeds.unique leftTwins
  rw [Workflow.components_compile embeds.smallCoherent,
    Workflow.components_compile embeds.largeCoherent]
  apply exprs_of_restrict embeds isolated _ classesResolve.roots
  · exact fun group isGroup edge inGroup => Component.subset_of_mem_partition isGroup inGroup
  · have classes := classesResolve.classes
    rw [Workflow.resolvedClasses] at classes
    rw [classes]
    exact twins

/-! ### The main expression -/

private theorem main_of_seedsResolve (embeds : Workflow.Embeds same twin large.resolves small large)
    (backLinks : large.BackLinksResolve large.mainBuild.progress.processed)
    (seedsResolve : large.SeedsResolve) : large.compile.main = small.compile.main := by
  have coherent := embeds.largeCoherent
  have isolated := Workflow.isolated_resolves backLinks (fun _ => True) (by
    intro edge resolved isProcessed resolves next leaves _
    rw [mem_processed_mainBuild coherent] at isProcessed ⊢
    exact isProcessed.onward resolves leaves)
  exact expr_mainBuild_of_triggers embeds (Workflow.sound_mainBuild coherent).2 seedsResolve
    isolated fun _ => trivial

/-! ### Main result -/

def withStrays : Document :=
  (((((((Document.ofEntrypoint "entry").addTrigger "t").addNodes ["a", "b", "x", "y"]).addEdge "t"
    "missing").addEdge "t" "a").addEdge "a" "b").addEdge "ghost" "b").addEdge "x" "y" |>.addEdge
      "y" "nowhere"

/-- Three nodes in a row of which the first two are entered. An edge with an unknown port leads
back from the second one to the first. -/
def linkedBack : Document :=
  (((((Document.ofEntrypoint "entry").addNodes ["a", "b", "c"]).addEdge "entry" "b").addEdge
    "b" "c").addEdge "a" "b").addEdge "entry" "a" |>.addEdge "b.unknown" "a"

def heldTogether : Document :=
  ((((Document.ofEntrypoint "entry").addNodes ["a", "b", "c", "d"]).addEdge "a" "b").addEdge
    "c" "d").addEdge "b" "ghost" |>.addEdge "d" "ghost"

def entered : Document :=
  (((Document.ofEntrypoint "entry").addNodes ["a", "b", "c"]).addEdge "b" "c").addEdge "a" "b"
    |>.addEdge "ghost" "a"

private theorem exists_load_without_dangling {document : Document} {View : Type}
    (view : Workflow → View) {whole rest : View}
    (evaluated : ((Workflow.load document).toOption.bind fun workflow =>
      (Workflow.load (document.keepEdges workflow.resolves)).toOption.map fun fewer =>
        (view workflow, view fewer)) = some (whole, rest))
    (different : rest ≠ whole) :
    ∃ workflow fewer, Workflow.load document = .ok workflow ∧
      Workflow.load (document.keepEdges workflow.resolves) = .ok fewer ∧
      view workflow = whole ∧ view fewer = rest ∧ view fewer ≠ view workflow := by
  obtain ⟨workflow, isLoaded, fewerEvaluated⟩ := Option.bind_eq_some_iff.mp evaluated
  obtain ⟨fewer, loadedFewer, views⟩ := Workflow.exists_load_of_map_toOption fewerEvaluated
  obtain ⟨rfl, rfl⟩ := Prod.mk.inj views
  exact ⟨workflow, fewer, eq_ok_of_toOption_eq_some isLoaded, loadedFewer, rfl, rfl, different⟩

end FlowGraph
