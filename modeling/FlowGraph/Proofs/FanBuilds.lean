import FlowGraph.Proofs.Fans

/-!
Builds of workflows whose edges form a fan. Its edges lie in layers: those to the branches, those
from the branches to where they meet, and then one after the other those behind that.
-/

namespace FlowGraph

open FlowGraph.Build FlowGraph.Expr

structure Fan where
  outset : Outset
  branches : List NodeId
  merge : NodeId
  tail : List NodeId

theorem eraseDups_eq_singleton {items : List Reference} {item : Reference} (inhabited : items ≠ [])
    (same : ∀ other ∈ items, other = item) : items.eraseDups = [item] := by
  obtain ⟨first, rest, rfl⟩ := List.exists_cons_of_ne_nil inhabited
  have noOther : (rest.filter fun other => !other == first) = [] := by
    rw [List.filter_eq_nil_iff]
    intro other isOther
    simp [same other (List.mem_cons_of_mem first isOther), same first List.mem_cons_self]
  rw [List.eraseDups_cons, noOther, same first List.mem_cons_self]
  rfl

namespace Outset

def starts : Outset → List Reference
  | trigger triggerId => [.trigger triggerId]
  | _ => []

def steps : Outset → List Expr
  | entry => []
  | trigger triggerId => [.trigger triggerId]
  | node nodeId => [.node nodeId]

theorem chain_steps (outset : Outset) : chain outset.steps = outset.lead := by
  cases outset <;> rfl

private theorem mem_nodes_of_leaving {outset : Outset} {node : NodeId}
    (leaves : outset.leaving = some (.node node)) : node ∈ outset.nodes := by
  cases outset with
  | node other =>
      cases leaves
      exact List.mem_singleton_self node
  | _ => cases leaves

private theorem foldAll_nodes (surroundings : Surroundings) (outset : Outset) :
    surroundings.foldAll (hopsFrom none outset.nodes)
        (flatten surroundings.hasDefaultExit (outset.starts.map ofReference)) =
      some outset.lead := by
  cases outset with
  | trigger triggerId =>
      have alone : flatten surroundings.hasDefaultExit [.trigger triggerId] =
          .trigger triggerId := by
        have pieces : inlined [.trigger triggerId] = [.trigger triggerId] :=
          eraseDups_of_nodup (List.nodup_singleton _)
        rw [flatten_eq_ofMembers_kept, pieces]
        simp [kept, subsumed, reference?, ofMembers]
      exact congrArg some alone
  | _ => rfl

end Outset

namespace Fan

def spreading (fan : Fan) : List ResolvedEdge :=
  fan.branches.map fun node => ⟨fan.outset.leaving, node⟩

def gathering (fan : Fan) : List ResolvedEdge :=
  fan.branches.map fun node => ⟨some (.node node), fan.merge⟩

def layersBehind (fan : Fan) : List (List ResolvedEdge) :=
  fan.spreading :: fan.gathering :: inTurn (hopsFrom (some (.node fan.merge)) fan.tail)

def layers (fan : Fan) : List (List ResolvedEdge) :=
  inTurn (hopsFrom none fan.outset.nodes) ++ fan.layersBehind

def shape (fan : Fan) : Expr :=
  chain (fan.outset.steps ++ [.set (fan.branches.map .node), .node fan.merge] ++
    fan.tail.map .node)

structure Proper (fan : Fan) : Prop where
  distinct : (fan.outset.nodes ++ (fan.branches ++ fan.merge :: fan.tail)).Nodup
  several : 2 ≤ fan.branches.length

variable {fan : Fan}

/-! ### The layers -/

private theorem mem_spreading {hop : ResolvedEdge} :
    hop ∈ fan.spreading ↔ ∃ node ∈ fan.branches, hop = ⟨fan.outset.leaving, node⟩ := by
  simp only [spreading, List.mem_map, @eq_comm _ hop]

private theorem mem_gathering {hop : ResolvedEdge} :
    hop ∈ fan.gathering ↔ ∃ node ∈ fan.branches, hop = ⟨some (.node node), fan.merge⟩ := by
  simp only [gathering, List.mem_map, @eq_comm _ hop]

theorem flatten_layers (fan : Fan) :
    fan.layers.flatten = hopsFrom none fan.outset.nodes ++ (fan.spreading ++ (fan.gathering ++
      hopsFrom (some (.node fan.merge)) fan.tail)) := by
  rw [layers, layersBehind, List.flatten_append, List.flatten_cons, List.flatten_cons,
    flatten_inTurn, flatten_inTurn]

private theorem mem_layersBehind {hop : ResolvedEdge} :
    hop ∈ fan.layersBehind.flatten ↔ hop ∈ fan.spreading ∨ hop ∈ fan.gathering ∨
      hop ∈ hopsFrom (some (.node fan.merge)) fan.tail := by
  simp only [layersBehind, List.flatten_cons, flatten_inTurn, List.mem_append]

theorem mem_layers {hop : ResolvedEdge} :
    hop ∈ fan.layers.flatten ↔
      hop ∈ hopsFrom none fan.outset.nodes ∨ hop ∈ fan.layersBehind.flatten := by
  rw [layers, List.flatten_append, flatten_inTurn, List.mem_append]

private theorem source_of_following {hop : ResolvedEdge}
    (isHop : hop ∈ hopsFrom (some (.node fan.merge)) fan.tail) :
    ∃ node ∈ fan.merge :: fan.tail, hop.source = some (.node node) := by
  rcases source_of_mem_hopsFrom isHop with atMerge | ⟨node, isNode, isSource⟩
  · exact ⟨fan.merge, List.mem_cons_self, atMerge⟩
  · exact ⟨node, List.mem_cons_of_mem _ (List.dropLast_subset _ isNode), isSource⟩

namespace Proper

variable (proper : fan.Proper)
include proper

theorem ne_nil : fan.branches ≠ [] :=
  List.ne_nil_of_length_pos (Nat.lt_of_lt_of_le Nat.zero_lt_two proper.several)

private theorem nodup_branches : fan.branches.Nodup :=
  (List.nodup_append.mp (List.nodup_append.mp proper.distinct).2.1).1

private theorem nodup_tail : (fan.merge :: fan.tail).Nodup :=
  (List.nodup_append.mp (List.nodup_append.mp proper.distinct).2.1).2.1

theorem disjoint_tail : fan.branches.Disjoint (fan.merge :: fan.tail) :=
  List.disjoint_of_nodup_append (List.nodup_append.mp proper.distinct).2.1

private theorem disjoint_outset :
    fan.outset.nodes.Disjoint (fan.branches ++ fan.merge :: fan.tail) :=
  List.disjoint_of_nodup_append proper.distinct

private theorem merge_not_mem_branches : fan.merge ∉ fan.branches := fun inBranches =>
  proper.disjoint_tail inBranches List.mem_cons_self

end Proper

theorem nodup_of_mem_layers (proper : fan.Proper) :
    ∀ layer ∈ fan.layers, layer.Nodup := by
  have alone : ∀ hops : List ResolvedEdge, ∀ layer ∈ inTurn hops, layer.Nodup := by
    intro hops layer isLayer
    obtain ⟨hop, _, rfl⟩ := List.mem_map.mp isLayer
    exact List.nodup_singleton hop
  intro layer isLayer
  rcases List.mem_append.mp isLayer with isFirst | isLater
  · exact alone _ layer isFirst
  · rcases List.mem_cons.mp isLater with rfl | isLater
    · exact proper.nodup_branches.map fun _ _ same => congrArg ResolvedEdge.target same
    · rcases List.mem_cons.mp isLater with rfl | isLast
      · refine proper.nodup_branches.map fun _ _ same => ?_
        exact Reference.node.inj (Option.some.inj (congrArg ResolvedEdge.source same))
      · exact alone _ layer isLast

theorem exists_source {leaving : Reference} (isOutset : fan.outset.leaving = some leaving)
    {hop : ResolvedEdge} (isHop : hop ∈ fan.layersBehind.flatten) :
    ∃ source, hop.source = some source := by
  rcases mem_layersBehind.mp isHop with isSpreading | isGathering | isFollowing
  · obtain ⟨branch, _, rfl⟩ := mem_spreading.mp isSpreading
    exact ⟨leaving, isOutset⟩
  · obtain ⟨branch, _, rfl⟩ := mem_gathering.mp isGathering
    exact ⟨_, rfl⟩
  · obtain ⟨node, _, isSource⟩ := source_of_following isFollowing
    exact ⟨_, isSource⟩

private theorem layered_behind (proper : fan.Proper) {places : List Reference}
    (held : ∀ leaving, fan.outset.leaving = some leaving → leaving.owner ∈ places)
    (isNew : ∀ node ∈ fan.branches ++ fan.merge :: fan.tail, .node node ∉ places) :
    Layered places fan.layersBehind := by
  have isNewTail : ∀ node ∈ fan.merge :: fan.tail,
      .node node ∉ places ++ placesBehind fan.spreading := by
    intro node inTail present
    rcases List.mem_append.mp present with isPlace | isBehind
    · exact isNew node (List.mem_append_right _ inTail) isPlace
    · obtain ⟨hop, isHop, same⟩ := List.mem_map.mp isBehind
      obtain ⟨branch, isBranch, rfl⟩ := mem_spreading.mp isHop
      cases same
      exact proper.disjoint_tail isBranch inTail
  refine .cons ?_ ?_ (.cons ?_ ?_ (Layered.along ?_ ?_ (List.nodup_cons.mp proper.nodup_tail).2))
  · intro hop isHop
    obtain ⟨node, _, rfl⟩ := mem_spreading.mp isHop
    exact held
  · intro hop isLater
    rw [List.flatten_cons, flatten_inTurn] at isLater
    rcases List.mem_append.mp isLater with isGathering | isFollowing
    · obtain ⟨node, isBranch, rfl⟩ := mem_gathering.mp isGathering
      exact ResolvedEdge.not_leavesFrom rfl (isNew node (List.mem_append_left _ isBranch))
    · obtain ⟨node, inTail, isSource⟩ := source_of_following isFollowing
      exact ResolvedEdge.not_leavesFrom isSource (isNew node (List.mem_append_right _ inTail))
  · intro hop isHop leaving isSource
    obtain ⟨node, isBranch, rfl⟩ := mem_gathering.mp isHop
    cases isSource
    have isSpreading := mem_spreading.mpr ⟨node, isBranch, rfl⟩
    exact List.mem_append_right _ (List.mem_map_of_mem isSpreading)
  · intro hop isLater
    rw [flatten_inTurn] at isLater
    obtain ⟨node, inTail, isSource⟩ := source_of_following isLater
    exact ResolvedEdge.not_leavesFrom isSource (isNewTail node inTail)
  · obtain ⟨branch, isBranch⟩ := List.exists_mem_of_ne_nil _ proper.ne_nil
    have isGathering := mem_gathering.mpr ⟨branch, isBranch, rfl⟩
    exact List.mem_append_right _ (List.mem_map_of_mem isGathering)
  · intro node inTail present
    rcases List.mem_append.mp present with isPlace | isBehind
    · exact isNewTail node (List.mem_cons_of_mem _ inTail) isPlace
    · obtain ⟨hop, isHop, same⟩ := List.mem_map.mp isBehind
      obtain ⟨_, _, rfl⟩ := mem_gathering.mp isHop
      cases same
      exact (List.nodup_cons.mp proper.nodup_tail).1 inTail

/-- All hops of a fan lie in layers, given the triggers among what the branches leave. -/
theorem layered (proper : fan.Proper) : Layered fan.outset.starts fan.layers := by
  obtain ⟨outset, branches, merge, tail⟩ := fan
  cases outset with
  | entry => exact layered_behind proper nofun fun _ _ => List.not_mem_nil
  | trigger triggerId =>
      apply layered_behind proper
      · rintro _ ⟨⟩
        exact List.mem_singleton_self _
      · intro node _ isTrigger
        cases List.mem_singleton.mp isTrigger
  | node nodeId =>
      refine .cons ?_ ?_ (layered_behind proper ?_ ?_)
      · intro hop isHop leaving isSource
        rw [List.mem_singleton.mp isHop] at isSource
        cases isSource
      · intro hop isLater leaves
        obtain ⟨leaving, isSource⟩ := exists_source rfl isLater
        exact List.not_mem_nil (leaves leaving isSource)
      · rintro _ ⟨⟩
        exact List.mem_singleton_self _
      · intro node isNode isFirst
        cases List.mem_singleton.mp isFirst
        exact proper.disjoint_outset (List.mem_singleton_self _) isNode

/-! ### The whole fan -/

section Folded

variable {surroundings : Surroundings} (proper : fan.Proper)
  (noLink : ∀ node ∈ fan.branches, surroundings.hasLink fan.merge node = false)
include proper

theorem contains_lead {node : NodeId} (isNode : node ∈ fan.branches ++ fan.merge :: fan.tail) :
    fan.outset.lead.contains (.node node) = false :=
  fan.outset.contains_lead fun inOutset => proper.disjoint_outset inOutset isNode

include noLink in
/-- The branches are drawn side by side, and then come to the merge, both in any order. -/
theorem foldAll_branches {targets sources : List NodeId} (areTargets : targets.Perm fan.branches)
    (areSources : sources.Perm fan.branches) :
    ∃ order : List NodeId, order.Perm fan.branches ∧
      surroundings.foldAll ((targets.map fun node => ⟨fan.outset.leaving, node⟩) ++
          sources.map fun node => ⟨some (.node node), fan.merge⟩) fan.outset.lead =
        some ((fan.outset.lead.andThen (.set (order.map .node))).andThen (.node fan.merge)) := by
  have distinct : (targets ++ []).Nodup := by
    rw [List.append_nil, areTargets.nodup_iff]
    exact proper.nodup_branches
  obtain ⟨reached, areReached, branching⟩ :=
    @Surroundings.foldAll_spread surroundings fan.outset targets [] distinct
  rw [List.append_nil] at areReached
  have several : 2 ≤ (reached.map Expr.node).length := by
    rw [List.length_map, areReached.length_eq, areTargets.length_eq]
    exact proper.several
  rw [Surroundings.ofMembers_of_two_le several] at branching
  have isBranch : ∀ {node}, node ∈ sources → node ∈ fan.branches := areSources.mem_iff.mp
  obtain ⟨order, isOrder, meeting⟩ := @Surroundings.foldAll_gather surroundings fan.merge
    fan.outset.lead [] sources (reached.map fun node => [node]) fan.outset.emptyOrSolid_lead
    (proper.several.trans_eq areSources.length_eq.symm)
    (areSources.nodup_iff.mpr proper.nodup_branches)
    (fun isSource => proper.merge_not_mem_branches (isBranch isSource))
    (List.ne_nil_of_mem (areSources.symm.subset (List.head_mem proper.ne_nil)))
    (fun node isSource => contains_lead proper (List.mem_append_left _ (isBranch isSource)))
    (fun node isSource => noLink node (isBranch isSource))
    ((areReached.trans (areTargets.trans areSources.symm)).map _)
  rw [map_path_singletons] at meeting
  exact ⟨order, isOrder.trans areSources,
    (Surroundings.foldAll_append branching).trans meeting⟩

include noLink in
private theorem foldAll_orders {orders : List (List ResolvedEdge)}
    (areOrders : List.Forall₂ List.Perm orders fan.layers) :
    ∃ order : List NodeId, order.Perm fan.branches ∧
      surroundings.foldAll orders.flatten
          (flatten surroundings.hasDefaultExit (fan.outset.starts.map ofReference)) =
        some ((fan.outset.lead.andThen (.set (order.map .node))).andThen
          (path (fan.merge :: fan.tail))) := by
  obtain ⟨behind, together, areBehind⟩ := flatten_of_perm_inTurn areOrders
  obtain ⟨spread, others, isSpread, areOthers, rfl⟩ := List.forall₂_cons_right_iff.mp areBehind
  obtain ⟨gathered, last, isGathered, areLast, rfl⟩ := List.forall₂_cons_right_iff.mp areOthers
  have following : last.flatten = hopsFrom (some (.node fan.merge)) fan.tail := by
    rw [← List.append_nil (inTurn _)] at areLast
    obtain ⟨nothing, following, areNothing⟩ := flatten_of_perm_inTurn areLast
    rw [following, List.forall₂_nil_right_iff.mp areNothing, List.flatten_nil, List.append_nil]
  obtain ⟨targets, areTargets, rfl⟩ := exists_perm_of_perm_map isSpread
  obtain ⟨sources, areSources, rfl⟩ := exists_perm_of_perm_map isGathered
  obtain ⟨order, isOrder, merged⟩ := foldAll_branches proper noLink areTargets areSources
  have outside : ∀ node ∈ fan.merge :: fan.tail,
      (fan.outset.lead.andThen (.set (order.map .node))).contains (.node node) = false := by
    intro node inTail
    rw [Bool.eq_false_iff, ne_eq, contains_andThen, contains_nodes, isOrder.mem_iff,
      contains_lead proper (List.mem_append_right _ inTail)]
    rintro (impossible | isBranch)
    · cases impossible
    · exact proper.disjoint_tail isBranch inTail
  have solid := solid_nodes (List.ne_nil_of_mem (isOrder.symm.subset (List.head_mem proper.ne_nil)))
  refine ⟨order, isOrder, ?_⟩
  rw [together, List.flatten_cons, List.flatten_cons, following,
    ← List.append_assoc (targets.map _),
    Surroundings.foldAll_append (Outset.foldAll_nodes surroundings fan.outset),
    Surroundings.foldAll_append merged]
  exact Surroundings.foldAll_along (fan.outset.emptyOrSolid_lead.andThen (.inr solid))
    proper.nodup_tail outside

end Folded

theorem canonical_shape {order : List NodeId} (isOrder : order.Perm fan.branches) :
    ((fan.outset.lead.andThen (.set (order.map .node))).andThen
      (path (fan.merge :: fan.tail))).canonical = fan.shape.canonical := by
  have sameSet : (Expr.set (order.map .node)).canonical =
      (Expr.set (fan.branches.map .node)).canonical :=
    (Reorders.here (isOrder.map .node)).canonical_eq
  have isShape : fan.shape = (fan.outset.lead.andThen (.set (fan.branches.map .node))).andThen
      (path (fan.merge :: fan.tail)) := by
    rw [shape, List.append_assoc, chain_append, Outset.chain_steps, andThen_assoc,
      List.cons_append, chain_cons]
    rfl
  rw [isShape, canonical_andThen, canonical_andThen, sameSet, ← canonical_andThen,
    ← canonical_andThen]

variable {workflow : Workflow}

theorem hasLink_merge (proper : fan.Proper) (draws : workflow.Draws fan.layers.flatten) :
    ∀ node ∈ fan.branches, workflow.hasLink fan.merge node = false := by
  intro node isBranch
  rw [Bool.eq_false_iff]
  intro linked
  have isGathering := mem_gathering.mpr ⟨node, isBranch, rfl⟩
  have isHop := draws.links ⟨some (.node node), fan.merge⟩
    (mem_layers.mpr (Or.inr (mem_layersBehind.mpr (Or.inr (Or.inl isGathering))))) linked
  rcases mem_layers.mp isHop with isFirst | isLater
  · exact proper.disjoint_outset (target_of_mem_hopsFrom isFirst) (List.mem_append_left _ isBranch)
  · rcases mem_layersBehind.mp isLater with isSpreading | isGathering | isFollowing
    · obtain ⟨other, _, same⟩ := mem_spreading.mp isSpreading
      exact proper.disjoint_outset
        (Outset.mem_nodes_of_leaving (congrArg ResolvedEdge.source same).symm) (by simp)
    · obtain ⟨other, isOther, same⟩ := mem_gathering.mp isGathering
      cases same
      exact proper.merge_not_mem_branches isBranch
    · exact proper.disjoint_tail isBranch
        (List.mem_cons_of_mem _ (target_of_mem_hopsFrom isFollowing))

/-- A workflow whose edges are the hops of a fan has one expression: what the branches leave, the
branches side by side, and then what comes where they meet. -/
theorem compile (coherent : workflow.Coherent) (complete : workflow.Complete)
    (proper : fan.Proper) (draws : workflow.Draws fan.layers.flatten)
    (starts : (entryTriggers workflow).eraseDups = fan.outset.starts) :
    workflow.compile.components = [] ∧
      workflow.compile.main.canonical = fan.shape.canonical := by
  have layered : Layered (entryTriggers workflow) fan.layers :=
    (layered proper).congr fun place => by rw [← starts, List.mem_eraseDups]
  obtain ⟨noComponents, orders, areOrders, folded⟩ :=
    Workflow.compile_of_layered coherent complete draws (nodup_of_mem_layers proper) layered
  obtain ⟨order, isOrder, shown⟩ := @foldAll_orders fan workflow.surroundings proper
    (hasLink_merge proper draws) orders areOrders
  have sameStart : (entryTriggers workflow).eraseDups = fan.outset.starts.eraseDups := by
    rw [← starts, eraseDups_eraseDups]
  rw [flatten_ofReference_congr _ sameStart] at folded
  rw [Option.some.inj (folded.symm.trans shown)]
  exact ⟨noComponents, canonical_shape isOrder⟩

end Fan

end FlowGraph
