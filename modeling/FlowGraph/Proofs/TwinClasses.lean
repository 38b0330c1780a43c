import FlowGraph.Proofs.Counterparts
import FlowGraph.Proofs.Locality

/-!
Classes of leftover edges in two workflows that correspond. Raw ids are only ever compared with
each other, so edges whose raw ids correspond are grouped alike, in the same order.
-/

namespace FlowGraph

open FlowGraph.Build FlowGraph.Expr

variable {same : IdentId → IdentId → Prop} {twin : EdgeId → EdgeId} {kept : EdgeId → Bool}
  {small large : Workflow}

namespace Component

/-! ### Grouping -/

private theorem closure_of_touching_eq_nil {idents : List IdentId} {edges : List (EdgeId × Edge)}
    (nothing : touching idents edges = []) : closure idents edges = idents := by
  rw [closure]
  split
  · rfl
  · rename_i touched
    rw [nothing] at touched
    cases touched

private theorem closure_of_touching_eq_cons {idents : List IdentId}
    {edges rest : List (EdgeId × Edge)}
    {first : EdgeId × Edge} (touched : touching idents edges = first :: rest) :
    closure idents edges =
      closure (idents ++ (first :: rest).flatMap ends) (apart idents edges) := by
  rw [closure]
  split
  · rename_i nothing
    rw [touched] at nothing
    cases nothing
  · rename_i again
    rw [touched] at again
    cases again
    rfl

section Twins

variable {idents images : List IdentId} {edges others : List (EdgeId × Edge)}
  (unique : Relator.BiUnique same)
include unique

private theorem touches_of_twins (alike : List.Forall₂ same idents images)
    {entry image : EdgeId × Edge}
    (isTwin : Twins same twin entry image) : touches idents entry = touches images image := by
  simp [touches, List.rel_mem unique isTwin.2.sourceNode alike,
    List.rel_mem unique isTwin.2.targetNode alike]

private theorem twins_touching (alike : List.Forall₂ same idents images)
    (twins : List.Forall₂ (Twins same twin) edges others) :
    List.Forall₂ (Twins same twin) (touching idents edges) (touching images others) :=
  List.rel_filter (fun _ _ isTwin => by simp [touches_of_twins unique alike isTwin]) twins

private theorem twins_apart (alike : List.Forall₂ same idents images)
    (twins : List.Forall₂ (Twins same twin) edges others) :
    List.Forall₂ (Twins same twin) (apart idents edges) (apart images others) :=
  List.rel_filter (fun _ _ isTwin => by simp [touches_of_twins unique alike isTwin]) twins

private theorem same_closure (alike : List.Forall₂ same idents images)
    (twins : List.Forall₂ (Twins same twin) edges others) :
    List.Forall₂ same (closure idents edges) (closure images others) := by
  have touchingTwins := twins_touching unique alike twins
  fun_induction closure idents edges generalizing images others with
  | case1 idents edges nothing =>
      rw [nothing, List.forall₂_nil_left_iff] at touchingTwins
      rw [closure_of_touching_eq_nil touchingTwins]
      exact alike
  | case2 idents edges first rest touched ih =>
      rw [touched, List.forall₂_cons_left_iff] at touchingTwins
      obtain ⟨image, imageRest, isTwin, restTwins, imageTouched⟩ := touchingTwins
      rw [closure_of_touching_eq_cons imageTouched]
      have moreEnds : List.Forall₂ same ((first :: rest).flatMap ends)
          ((image :: imageRest).flatMap ends) := by
        refine List.rel_flatMap (.cons isTwin restTwins) ?_
        exact fun _ _ isTwin => .cons isTwin.2.sourceNode (.cons isTwin.2.targetNode .nil)
      have allEnds := List.rel_append alike moreEnds
      have apartTwins := twins_apart unique alike twins
      exact ih allEnds apartTwins (twins_touching unique allEnds apartTwins)

/-- Corresponding edges fall into corresponding classes. -/
theorem twins_partition (twins : List.Forall₂ (Twins same twin) edges others) :
    List.Forall₂ (List.Forall₂ (Twins same twin)) (partition edges) (partition others) := by
  fun_induction partition edges generalizing others with
  | case1 =>
      rw [List.forall₂_nil_left_iff] at twins
      rw [twins, partition]
      exact .nil
  | case2 first rest reachable =>
      rename_i ih
      rw [List.forall₂_cons_left_iff] at twins
      obtain ⟨image, imageRest, isTwin, restTwins, rfl⟩ := twins
      have firstEnds : List.Forall₂ same (ends first) (ends image) :=
        .cons isTwin.2.sourceNode (.cons isTwin.2.targetNode .nil)
      have reached := same_closure unique firstEnds restTwins
      rw [partition]
      exact .cons (.cons isTwin (twins_touching unique reached restTwins))
        (ih (twins_apart unique reached restTwins))

end Twins

end Component

namespace Workflow.Embeds

variable (embeds : Embeds same twin kept small large)
include embeds

/-! ### Leftover edges -/

theorem counterpart {edge : EdgeId} {entry : Edge} (found : small.edge? edge = some entry) :
    Counterpart same small large edge (twin edge) := by
  have ends := embeds.edge? edge
  rcases rel_cases ends with ⟨isNone, _⟩ | ⟨left, right, isLeft, isRight, alike⟩
  · cases found.symm.trans isNone
  · exact ⟨left, right, isLeft, isRight, alike⟩

/-- If all edges that resolve are kept, the same edges can be reached. -/
theorem matches_of_kept
    (allKept : ∀ edge resolved, large.resolveEdge edge = .ok resolved → kept edge = true) :
    Matches same small large where
  toAgree := embeds.toAgree
  leftCoherent := embeds.smallCoherent
  rightCoherent := embeds.largeCoherent
  onward := by
    intro edge resolved resolves
    obtain ⟨entry, found, _⟩ := target_of_resolveEdge resolves
    exact ⟨twin edge, embeds.counterpart found⟩
  back := by
    intro edge resolved resolves
    obtain ⟨entry, found, _⟩ := target_of_resolveEdge resolves
    obtain ⟨other, rfl⟩ := embeds.exists_twin (allKept edge resolved resolves) found
    obtain ⟨stored, isStored, _⟩ :=
      target_of_resolveEdge ((embeds.resolveEdge other).trans resolves)
    exact ⟨other, embeds.counterpart isStored⟩

theorem twins_leftover
    (allKept : ∀ edge resolved, large.resolveEdge edge = .ok resolved → kept edge = true) :
    List.Forall₂ (Component.Twins same twin) (leftover small small.mainBuild.progress)
      ((leftover large large.mainBuild.progress).filter fun stored => kept stored.1) := by
  have alike := embeds.matches_of_kept allKept
  have stored : ∀ entry ∈ small.edges.enumerate, small.edge? entry.1 = some entry.2 :=
    fun entry inside => (Arena.mem_enumerate (Nat.le_of_lt embeds.smallCoherent.edgesFit)).mp inside
  have leftAlike : ∀ entry image, (small.edge? entry.1 = some entry.2 ∧
      Component.Twins same twin entry image) →
      ((!small.mainBuild.progress.isProcessed entry.1) = true ↔
        (!large.mainBuild.progress.isProcessed image.1) = true) := by
    rintro entry image ⟨found, isTwin⟩
    have reachedAlike := alike.reached_iff (embeds.counterpart found)
    rw [← mem_processed_mainBuild embeds.smallCoherent,
      ← mem_processed_mainBuild embeds.largeCoherent] at reachedAlike
    simp [Progress.isProcessed, isTwin.1, reachedAlike]
  have filtered := List.rel_filter leftAlike
    ((List.forall₂_and_left _ _).mpr ⟨stored, embeds.twins_enumerate⟩)
  have swapped : (leftover large large.mainBuild.progress).filter (fun stored => kept stored.1) =
      (large.edges.enumerate.filter fun stored => kept stored.1).filter fun stored =>
        !large.mainBuild.progress.isProcessed stored.1 := by
    rw [leftover, List.filter_filter, List.filter_filter]
    simp only [Bool.and_comm]
  rw [swapped]
  exact filtered.imp fun _ _ isTwin => isTwin.2

end Workflow.Embeds

/-- If all edges are kept, both workflows compile to the same expressions. -/
theorem compile_of_embeds_all
    (embeds : Workflow.Embeds same twin (fun _ => true) small large) :
    large.compile.main = small.compile.main ∧
      large.compile.components = small.compile.components := by
  have isolated : large.Isolated (fun _ => true) (fun _ => True) fun _ => True :=
    Workflow.isolated_of_all_kept fun _ => True
  refine ⟨expr_mainBuild_of_triggers embeds (fun _ _ => trivial) ?_ isolated fun _ => trivial, ?_⟩
  · rw [List.filter_eq_self.mpr fun _ _ => rfl]
  have leftTwins := embeds.twins_leftover fun _ _ _ => rfl
  rw [List.filter_eq_self.mpr fun _ _ => rfl] at leftTwins
  have sameExpr : ∀ group image, List.Forall₂ (Component.Twins same twin) group image →
      small.componentExpr group = large.componentExpr image := by
    intro group image twins
    exact (componentExpr_of_startsAlike embeds
      (.of_kept twins (fun _ _ => rfl) fun _ _ => trivial) isolated).symm
  have exprs : (Component.partition (leftover small small.mainBuild.progress)).map
        small.componentExpr =
      (Component.partition (leftover large large.mainBuild.progress)).map large.componentExpr := by
    rw [← List.forall₂_eq_eq_eq, List.forall₂_map_left_iff, List.forall₂_map_right_iff]
    exact (Component.twins_partition embeds.unique leftTwins).imp sameExpr
  rw [Workflow.components_compile embeds.smallCoherent,
    Workflow.components_compile embeds.largeCoherent, exprs]

end FlowGraph
