import FlowGraph.Proofs.CanonicalForm
import FlowGraph.Proofs.FlatSets
import FlowGraph.Proofs.FoldedPaths
import FlowGraph.Proofs.LayeredBuilds

/-!
Fans: any number of branches that leave one place, each of one node, and meet again at once. The
branches are put side by side one by one, and then come to the place where they meet one by one.
Until the last of them is there, nothing is taken together.
-/

namespace FlowGraph

open FlowGraph.Build FlowGraph.Expr

/-! ### Nodes side by side -/

namespace Expr

variable {hasDefaultExit : NodeId → Bool}

theorem map_path_singletons (nodes : List NodeId) :
    (nodes.map fun node => [node]).map path = nodes.map .node := by
  rw [List.map_map]
  rfl

private theorem startApart_of_heads {ways : List (List NodeId)} {heads : List NodeId}
    (distinct : heads.Nodup) (areHeads : ways.map List.head? = heads.map some) :
    StartApart ways where
  inhabited := by
    rintro _ isWay rfl
    have noHead : none ∈ ways.map List.head? := List.mem_map.mpr ⟨[], isWay, rfl⟩
    rw [areHeads] at noHead
    obtain ⟨_, _, impossible⟩ := List.mem_map.mp noHead
    cases impossible
  apart := by
    have apart : (ways.map List.head?).Nodup := by
      rw [areHeads]
      exact distinct.map (Option.some_injective NodeId)
    exact List.pairwise_map.mp apart

private theorem startApart_singletons {nodes : List NodeId} (distinct : nodes.Nodup) :
    StartApart (nodes.map fun node => [node]) :=
  startApart_of_heads distinct (by rw [List.map_map]; rfl)

private theorem flatten_nodes {nodes : List NodeId} (distinct : nodes.Nodup) :
    flatten hasDefaultExit (nodes.map .node) = ofMembers (nodes.map .node) := by
  rw [← map_path_singletons]
  exact (startApart_singletons distinct).flatten_paths

private theorem spread_nodes (nodes : List NodeId) :
    (ofMembers (nodes.map .node)).spread = nodes.map .node := by
  apply spread_ofMembers
  intro piece present
  obtain ⟨node, _, rfl⟩ := List.mem_map.mp present
  rfl

theorem solid_nodes {nodes : List NodeId} (inhabited : nodes ≠ []) :
    (Expr.set (nodes.map .node)).Solid := by
  refine .set (mt List.map_eq_nil_iff.mp inhabited) ?_
  intro member present
  obtain ⟨node, _, rfl⟩ := List.mem_map.mp present
  exact .node node

theorem contains_nodes {nodes : List NodeId} {node : NodeId} :
    (Expr.set (nodes.map .node)).contains (.node node) = true ↔ node ∈ nodes := by
  rw [← map_path_singletons, contains_paths]
  simp

private theorem flatten_congr_spread {members others : List Expr}
    (same : spreadAll members = spreadAll others) :
    flatten hasDefaultExit members = flatten hasDefaultExit others := by
  rw [flatten, flatten, inlined, inlined, same]

private theorem isStep_ofMembers_nodes {nodes : List NodeId} (inhabited : nodes ≠ []) :
    (ofMembers (nodes.map .node)).IsStep := by
  match nodes with
  | [only] => exact isStep_node only
  | _ :: _ :: _ => exact isStep_set _

private theorem isStep_ofReference (reference : Reference) : (ofReference reference).IsStep := by
  cases reference <;> exact ⟨Expr.noConfusion, rfl⟩

private theorem longest_of_forall_eq {lists : List (List Expr)} {steps : List Expr}
    (inhabited : lists ≠ []) (same : ∀ list ∈ lists, list = steps) : longest lists = steps :=
  same _ (longest_mem inhabited)

end Expr

theorem exists_perm_of_perm_map {Item Image : Type} {image : Item → Image} {items : List Item}
    {images : List Image} (areImages : images.Perm (items.map image)) :
    ∃ order : List Item, order.Perm items ∧ images = order.map image := by
  have related : List.Forall₂ (fun found item => found = image item) (items.map image) items :=
    List.forall₂_map_left_iff.mpr (List.forall₂_same.mpr fun _ _ => rfl)
  obtain ⟨order, inOrder, isOrder⟩ := List.perm_comp_forall₂ areImages related
  refine ⟨order, isOrder, ?_⟩
  rw [← List.forall₂_eq_eq_eq, List.forall₂_map_right_iff]
  exact inOrder

/-! ### Where the branches leave -/

inductive Outset where
  | entry
  | trigger (trigger : TriggerId)
  | node (node : NodeId)

namespace Outset

def leaving : Outset → Option Reference
  | entry => none
  | trigger triggerId => some (.trigger triggerId)
  | node nodeId => some (.node nodeId)

def lead : Outset → Expr
  | entry => .empty
  | trigger triggerId => .trigger triggerId
  | node nodeId => .node nodeId

def nodes : Outset → List NodeId
  | node nodeId => [nodeId]
  | _ => []

theorem emptyOrSolid_lead (outset : Outset) : outset.lead.EmptyOrSolid := by
  cases outset with
  | entry => exact Or.inl rfl
  | trigger triggerId => exact Or.inr (.trigger triggerId)
  | node nodeId => exact Or.inr (.node nodeId)

theorem contains_lead (outset : Outset) {node : NodeId} (elsewhere : node ∉ outset.nodes) :
    outset.lead.contains (.node node) = false := by
  cases outset with
  | node other =>
      rw [Bool.eq_false_iff]
      intro inside
      simp only [lead, contains, beq_iff_eq, Reference.owner, Reference.node.injEq] at inside
      exact elsewhere (inside ▸ List.mem_singleton_self other)
  | _ => rfl

end Outset

/-! ### Branching out -/

namespace Surroundings

variable {surroundings : Surroundings} {target merge : NodeId}

private theorem withBestFold?_sets {fold : Expr → Option Expr} {first : Expr}
    {rest news : List Expr} (atFirst : fold first = some (.set news))
    (atRest : ∀ member ∈ rest, ∃ others, fold member = some (.set others)) :
    withBestFold? (first :: rest) ((first :: rest).map fold) = some (.set news :: rest) := by
  have noSingle : ((first :: rest).map fold).findIdx?
      (fun fold => fold.any fun expr => !expr.isSet) = none := by
    rw [List.findIdx?_eq_none_iff]
    intro folded present
    obtain ⟨member, isMember, rfl⟩ := List.mem_map.mp present
    rcases List.mem_cons.mp isMember with rfl | later
    · rw [atFirst]
      rfl
    · obtain ⟨others, isSet⟩ := atRest member later
      rw [isSet]
      rfl
  have best : bestFold? ((first :: rest).map fold) = some 0 := by
    rw [bestFold?, noSingle, Option.none_or, List.map_cons, atFirst, List.findIdx?_cons]
    rfl
  rw [withBestFold?, best, Option.bind_some, List.map_cons, atFirst]
  rfl

private theorem fold_node_beside {node : NodeId} (different : node ≠ target) :
    surroundings.fold none target .entry (.node node) = some (.set [.node node, .node target]) := by
  have distinct : [node, target].Nodup := by simpa using different
  exact congrArg some (flatten_nodes distinct)

private theorem compactSet_beside {first : NodeId} {rest : List NodeId}
    (distinct : (first :: target :: rest).Nodup) :
    surroundings.compactSet target (.set [.node first, .node target] :: rest.map .node) =
      .set ((first :: target :: rest).map .node) := by
  have sameSpread : spreadAll (.set [.node first, .node target] :: rest.map .node) =
      spreadAll ((first :: target :: rest).map .node) := rfl
  have firstWay : [first] ∈ (first :: target :: rest).map fun node => [node] := List.mem_cons_self
  have missing : target ∉ [first] := by
    intro same
    rw [List.mem_singleton.mp same] at distinct
    exact (List.nodup_cons.mp distinct).1 List.mem_cons_self
  rw [compactSet, flatten_congr_spread sameSpread, ← compactSet, ← map_path_singletons]
  exact compactSet_apart (by simp) (startApart_singletons distinct) firstWay missing

private theorem foldAtTop_beside_first {reached : List NodeId}
    (distinct : (target :: reached).Nodup) : ∃ order : List NodeId, order.Perm (target :: reached) ∧
      surroundings.foldAtTop none target (ofMembers (reached.map .node)) =
        some (ofMembers (order.map .node)) := by
  have different : ∀ node ∈ reached, node ≠ target := by
    rintro node present rfl
    exact (List.nodup_cons.mp distinct).1 present
  match reached with
  | [] => exact ⟨[target], .refl _, rfl⟩
  | [first] => exact ⟨[first, target], .swap _ _ _, fold_node_beside (different first (by simp))⟩
  | first :: second :: rest =>
      have rearranged : (first :: target :: second :: rest).Perm
          (target :: first :: second :: rest) := .swap _ _ _
      refine ⟨first :: target :: second :: rest, rearranged, ?_⟩
      have atRest : ∀ member ∈ (second :: rest).map Expr.node, ∃ others,
          surroundings.fold none target .entry member = some (.set others) := by
        intro member present
        obtain ⟨node, isNode, rfl⟩ := List.mem_map.mp present
        exact ⟨_, fold_node_beside (different node (List.mem_cons_of_mem first isNode))⟩
      have replaced := withBestFold?_sets (fold_node_beside (different first List.mem_cons_self))
        atRest
      have isSet : ofMembers ((first :: second :: rest).map Expr.node) =
          .set (.node first :: (second :: rest).map .node) := rfl
      rw [isSet, foldAtTop, fold_set, replaced, Option.map_some,
        compactSet_beside (rearranged.nodup_iff.mpr distinct)]
      rfl

private theorem foldAtTop_beside_all {leaf : Reference} {reached : List NodeId}
    (distinct : (target :: reached).Nodup) :
    surroundings.foldAtTop (some leaf) target
        ((ofReference leaf).andThen (ofMembers (reached.map .node))) =
      some ((ofReference leaf).andThen (ofMembers ((reached ++ [target]).map .node))) := by
  have atLeaf : surroundings.fold (some leaf) target .entry (ofReference leaf) =
      some ((ofReference leaf).andThen (.node target)) := by
    cases leaf <;> exact if_pos rfl
  have isLeaf := isStep_ofReference leaf
  by_cases none : reached = []
  · rw [none]
    exact atLeaf
  · have isStep := isStep_ofMembers_nodes none
    have inOrder : (reached ++ [target]).Nodup :=
      (List.perm_append_singleton target reached).nodup_iff.mpr distinct
    have different : ofMembers (reached.map .node) ≠ .node target := by
      intro same
      have spread := congrArg spread same
      rw [spread_nodes] at spread
      obtain ⟨node, rfl, isTarget⟩ := List.map_eq_singleton_iff.mp spread
      cases isTarget
      exact (List.nodup_cons.mp distinct).1 (List.mem_singleton_self _)
    have beside : flatten surroundings.hasDefaultExit
        [ofMembers (reached.map .node), .node target] =
        ofMembers ((reached ++ [target]).map .node) := by
      rw [← flatten_nodes inOrder]
      apply flatten_congr_spread
      have alone : spreadAll (reached.map .node) = reached.map .node := by
        apply spreadAll_of_pieces
        intro piece present
        obtain ⟨node, _, rfl⟩ := List.mem_map.mp present
        rfl
      rw [List.map_append, spreadAll_append, alone, spreadAll, spread_nodes]
      rfl
    rw [foldAtTop, andThen_of_isStep isLeaf.occupied isStep, fold_sequence, atLeaf]
    dsimp only
    rw [joinFirst_branch (.step isLeaf) isStep different, beside]

/-- Wherever the branches leave, a further node comes in beside those that are there. -/
theorem foldAtTop_beside (outset : Outset) {reached : List NodeId}
    (distinct : (target :: reached).Nodup) :
    ∃ order : List NodeId, order.Perm (target :: reached) ∧
      surroundings.foldAtTop outset.leaving target
          (outset.lead.andThen (ofMembers (reached.map .node))) =
        some (outset.lead.andThen (ofMembers (order.map .node))) := by
  have appended : (reached ++ [target]).Perm (target :: reached) :=
    List.perm_append_singleton target reached
  cases outset with
  | entry =>
      simp only [Outset.lead, Outset.leaving, empty_andThen]
      exact foldAtTop_beside_first distinct
  | trigger triggerId =>
      exact ⟨_, appended, @foldAtTop_beside_all _ _ (.trigger triggerId) _ distinct⟩
  | node nodeId =>
      exact ⟨_, appended, @foldAtTop_beside_all _ _ (.node nodeId) _ distinct⟩

/-- One after the other, all branches come in. -/
theorem foldAll_spread (outset : Outset) {targets reached : List NodeId}
    (distinct : (targets ++ reached).Nodup) :
    ∃ order : List NodeId, order.Perm (targets ++ reached) ∧
      surroundings.foldAll (targets.map fun target => ⟨outset.leaving, target⟩)
          (outset.lead.andThen (ofMembers (reached.map .node))) =
        some (outset.lead.andThen (ofMembers (order.map .node))) := by
  induction targets generalizing reached with
  | nil => exact ⟨reached, .refl _, foldAll_nil⟩
  | cons target targets ih =>
      obtain ⟨outside, _⟩ := List.nodup_cons.mp distinct
      have isNew : (target :: reached).Nodup :=
        distinct.sublist ((List.sublist_append_right targets reached).cons_cons target)
      obtain ⟨order, isOrder, found⟩ := foldAtTop_beside outset isNew
      have moved : (targets ++ order).Perm (target :: targets ++ reached) :=
        (isOrder.append_left targets).trans List.perm_middle
      obtain ⟨allOrder, isAll, foundAll⟩ := ih (moved.nodup_iff.mpr distinct)
      refine ⟨allOrder, isAll.trans moved, ?_⟩
      rw [List.map_cons, foldAll_cons found]
      exact foundAll

/-! ### Coming together -/

def waysTo (merge : NodeId) (arrived waiting : List NodeId) : List (List NodeId) :=
  (arrived.map fun node => [node, merge]) ++ waiting.map fun node => [node]

private theorem startApart_waysTo {arrived waiting : List NodeId}
    (distinct : (arrived ++ waiting).Nodup) : StartApart (waysTo merge arrived waiting) := by
  apply startApart_of_heads distinct
  rw [waysTo, List.map_append, List.map_map, List.map_map, List.map_append]
  rfl

private theorem not_mem_of_mem_waysTo {arrived waiting : List NodeId} {node : NodeId}
    (different : node ≠ merge) (elsewhere : node ∉ arrived ++ waiting) :
    ∀ way ∈ waysTo merge arrived waiting, way ≠ [] ∧ node ∉ way := by
  rw [List.mem_append, not_or] at elsewhere
  intro way isWay
  rcases List.mem_append.mp isWay with hasArrived | waits
  · obtain ⟨other, isOther, rfl⟩ := List.mem_map.mp hasArrived
    refine ⟨List.cons_ne_nil _ _, fun onWay => ?_⟩
    rcases List.mem_pair.mp onWay with rfl | isMerge
    · exact elsewhere.1 isOther
    · exact different isMerge
  · obtain ⟨other, isOther, rfl⟩ := List.mem_map.mp waits
    refine ⟨List.cons_ne_nil _ _, fun onWay => ?_⟩
    rw [List.mem_singleton.mp onWay] at elsewhere
    exact elsewhere.2 isOther

private theorem compactSet_waysTo {arrived : List NodeId} {ways : List (List NodeId)}
    (several : 2 ≤ arrived.length) (distinct : arrived.Nodup) (outside : merge ∉ arrived)
    (areWays : ways.Perm (waysTo merge arrived [])) :
    ∃ order : List NodeId, order.Perm arrived ∧
      surroundings.compactSet merge (ways.map path) =
        (Expr.set (order.map .node)).andThen (.node merge) := by
  rw [waysTo, List.map_nil, List.append_nil] at areWays
  obtain ⟨order, isOrder, rfl⟩ := exists_perm_of_perm_map areWays
  refine ⟨order, isOrder, ?_⟩
  rw [← isOrder.length_eq] at several
  rw [← isOrder.nodup_iff] at distinct
  let crossings : List Crossing := order.map fun node => ⟨[node], []⟩
  have before : crossings.map Crossing.before = order.map fun node => [node] := List.map_map
  have waysOf : crossings.map (Crossing.way merge) = order.map fun node => [node, merge] :=
    List.map_map
  have isCrossing : ∀ crossing ∈ crossings, ∃ node ∈ order, crossing = ⟨[node], []⟩ := by
    intro crossing present
    obtain ⟨node, inOrder, rfl⟩ := List.mem_map.mp present
    exact ⟨node, inOrder, rfl⟩
  have together := @compactSet_crossings surroundings merge crossings []
    (several.trans_eq (List.length_map _).symm)
    (before ▸ startApart_singletons distinct) ?_ ?_ ?_
  · rwa [waysOf, before, map_path_singletons] at together
  · intro crossing present inside
    obtain ⟨node, inOrder, rfl⟩ := isCrossing crossing present
    rw [List.mem_singleton.mp inside] at outside
    exact outside (isOrder.mem_iff.mp inOrder)
  · apply longest_of_forall_eq
    · simp [crossings, List.ne_nil_of_length_pos (Nat.lt_of_lt_of_le Nat.zero_lt_two several)]
    · intro list present
      obtain ⟨crossing, isOne, rfl⟩ := List.mem_map.mp present
      obtain ⟨node, _, rfl⟩ := isCrossing crossing isOne
      rfl
  · intro crossing present
    obtain ⟨node, _, rfl⟩ := isCrossing crossing present
    exact List.prefix_rfl

/-- One more branch comes to the merge. -/
theorem foldAtTop_arrive {front : Expr} {source : NodeId} {arrived waiting : List NodeId}
    {ways : List (List NodeId)} (formed : front.EmptyOrSolid)
    (distinct : (source :: (arrived ++ waiting)).Nodup) (different : source ≠ merge)
    (outside : front.contains (.node source) = false)
    (noLink : surroundings.hasLink merge source = false)
    (areWays : ways.Perm (waysTo merge arrived (source :: waiting))) :
    ∃ extended : List (List NodeId), extended.Perm (waysTo merge (source :: arrived) waiting) ∧
      surroundings.foldAtTop (some (.node source)) merge (front.andThen (.set (ways.map path))) =
        some (front.andThen (surroundings.compactSet merge (extended.map path))) := by
  have firstWay : (waysTo merge arrived (source :: waiting)).Perm
      ([source] :: waysTo merge arrived waiting) := List.perm_middle
  exact @foldAtTop_way surroundings source merge front [] ways _ formed (areWays.trans firstWay)
    outside List.not_mem_nil (not_mem_of_mem_waysTo different (List.nodup_cons.mp distinct).1)
    (Or.inr ⟨different, noLink⟩)

private theorem compactSet_waiting {arrived waiting : List NodeId} {ways : List (List NodeId)}
    (several : 2 ≤ (arrived ++ waiting).length) (distinct : (arrived ++ waiting).Nodup)
    (isNew : merge ∉ arrived ++ waiting) (inhabited : waiting ≠ [])
    (areWays : ways.Perm (waysTo merge arrived waiting)) :
    surroundings.compactSet merge (ways.map path) = .set (ways.map path) := by
  obtain ⟨next, waits⟩ := List.exists_mem_of_ne_nil waiting inhabited
  have isWay : [next] ∈ ways :=
    areWays.mem_iff.mpr (List.mem_append_right _ (List.mem_map.mpr ⟨next, waits, rfl⟩))
  have missing : merge ∉ [next] := by
    rw [List.mem_singleton]
    rintro rfl
    exact isNew (List.mem_append_right arrived waits)
  refine compactSet_apart ?_ ((startApart_waysTo distinct).perm areWays.symm) isWay missing
  rw [areWays.length_eq]
  simpa [waysTo] using several

/-- One after the other, all branches come to the merge, and with the last one they are taken
together before it. -/
theorem foldAll_gather {front : Expr} {arrived waiting : List NodeId} {ways : List (List NodeId)}
    (formed : front.EmptyOrSolid) (several : 2 ≤ (arrived ++ waiting).length)
    (distinct : (arrived ++ waiting).Nodup) (isNew : merge ∉ arrived ++ waiting)
    (inhabited : waiting ≠ [])
    (outside : ∀ node ∈ waiting, front.contains (.node node) = false)
    (noLink : ∀ node ∈ waiting, surroundings.hasLink merge node = false)
    (areWays : ways.Perm (waysTo merge arrived waiting)) :
    ∃ order : List NodeId, order.Perm (arrived ++ waiting) ∧
      surroundings.foldAll (waiting.map fun node => ⟨some (.node node), merge⟩)
          (front.andThen (.set (ways.map path))) =
        some ((front.andThen (.set (order.map .node))).andThen (.node merge)) := by
  induction waiting generalizing arrived ways with
  | nil => exact absurd rfl inhabited
  | cons source waiting ih =>
      have moved : ((source :: arrived) ++ waiting).Perm (arrived ++ source :: waiting) :=
        List.perm_middle.symm
      rw [← moved.length_eq] at several
      rw [← moved.nodup_iff] at distinct
      rw [← moved.mem_iff] at isNew
      obtain ⟨extended, areExtended, found⟩ := foldAtTop_arrive formed distinct
        (fun same => isNew (same ▸ List.mem_cons_self)) (outside source List.mem_cons_self)
        (noLink source List.mem_cons_self) areWays
      rw [List.map_cons, foldAll_cons found]
      by_cases last : waiting = []
      · subst last
        rw [List.append_nil] at several distinct isNew moved
        obtain ⟨order, isOrder, together⟩ :=
          @compactSet_waysTo surroundings merge _ _ several distinct isNew areExtended
        refine ⟨order, isOrder.trans moved, ?_⟩
        rw [together, ← andThen_assoc]
        exact foldAll_nil
      · rw [compactSet_waiting several distinct isNew last areExtended]
        obtain ⟨order, isOrder, foundLater⟩ := ih several distinct isNew last
          (fun node waits => outside node (List.mem_cons_of_mem source waits))
          (fun node waits => noLink node (List.mem_cons_of_mem source waits)) areExtended
        exact ⟨order, isOrder.trans moved, foundLater⟩

theorem foldAll_along {front : Expr} {source : NodeId} {nodes : List NodeId}
    (formed : front.EmptyOrSolid) (distinct : (source :: nodes).Nodup)
    (outside : ∀ node ∈ source :: nodes, front.contains (.node node) = false) :
    surroundings.foldAll (hopsFrom (some (.node source)) nodes) (front.andThen (.node source)) =
      some (front.andThen (path (source :: nodes))) := by
  induction nodes generalizing front source with
  | nil => exact foldAll_nil
  | cons next nodes ih =>
      have refused : Anchor.entry.admits (some (.node source)) = false := rfl
      have found : surroundings.foldAtTop (some (.node source)) next
            (front.andThen (.node source)) =
          some ((front.andThen (.node source)).andThen (.node next)) :=
        fold_last formed refused (outside source List.mem_cons_self)
      obtain ⟨notSource, distinctLater⟩ := List.nodup_cons.mp distinct
      have outsideLater : ∀ node ∈ next :: nodes,
          (front.andThen (.node source)).contains (.node node) = false := by
        intro node isNode
        rw [Bool.eq_false_iff, ne_eq, contains_andThen, ← path_singleton, contains_path,
          outside node (List.mem_cons_of_mem source isNode), List.mem_singleton]
        rintro (impossible | rfl)
        · cases impossible
        · exact notSource isNode
      have later := ih (formed.andThen (.inr (.node source))) distinctLater outsideLater
      have longer : path (source :: next :: nodes) =
          (Expr.node source).andThen (path (next :: nodes)) := path_append [source] (next :: nodes)
      rw [hopsFrom, foldAll_cons found, later, longer, andThen_assoc]

end Surroundings

end FlowGraph
