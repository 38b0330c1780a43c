import FlowGraph.Proofs.DrawnGraphs
import Mathlib.Data.Set.List

/-!
Workflows whose edges lie in layers. The edges of a layer go out from what the layers before it
lead to, and those of later layers do not. Since a build follows edges breadth first, it draws one
layer after the other; only within a layer does the order of the edges depend on the document.
-/

namespace FlowGraph

open FlowGraph.Build FlowGraph.Expr

/-! ### Layers -/

def ResolvedEdge.LeavesFrom (places : List Reference) (hop : ResolvedEdge) : Prop :=
  ∀ leaving, hop.source = some leaving → leaving.owner ∈ places

def placesBehind (hops : List ResolvedEdge) : List Reference :=
  hops.map fun hop => .node hop.target

/-- Each layer is all that goes out from the given places and from where the layers before it
lead to. -/
inductive Layered : List Reference → List (List ResolvedEdge) → Prop
  | nil {places} : Layered places []
  | cons {places layer later} (attached : ∀ hop ∈ layer, hop.LeavesFrom places)
      (ahead : ∀ hop ∈ later.flatten, ¬hop.LeavesFrom places)
      (rest : Layered (places ++ placesBehind layer) later) : Layered places (layer :: later)

theorem ResolvedEdge.not_leavesFrom {places : List Reference} {hop : ResolvedEdge} {node : NodeId}
    (isSource : hop.source = some (.node node)) (outside : .node node ∉ places) :
    ¬hop.LeavesFrom places :=
  fun leaves => outside (leaves _ isSource)

def inTurn (hops : List ResolvedEdge) : List (List ResolvedEdge) := hops.map fun hop => [hop]

@[simp] theorem flatten_inTurn (hops : List ResolvedEdge) : (inTurn hops).flatten = hops := by
  rw [inTurn, ← List.flatMap_def, List.flatMap_singleton']

theorem flatten_of_perm_inTurn {hops : List ResolvedEdge} {layers orders : List (List ResolvedEdge)}
    (areOrders : List.Forall₂ List.Perm orders (inTurn hops ++ layers)) :
    ∃ later, orders.flatten = hops ++ later.flatten ∧ List.Forall₂ List.Perm later layers := by
  induction hops generalizing orders with
  | nil => exact ⟨orders, rfl, areOrders⟩
  | cons hop hops ih =>
      obtain ⟨order, others, isOrder, areOthers, rfl⟩ := List.forall₂_cons_right_iff.mp areOrders
      obtain ⟨later, together, areLater⟩ := ih areOthers
      refine ⟨later, ?_, areLater⟩
      rw [List.flatten_cons, isOrder.eq_singleton, together]
      rfl

namespace Layered

variable {places : List Reference} {layers : List (List ResolvedEdge)}

theorem congr {others : List Reference} (layered : Layered places layers)
    (same : ∀ place, place ∈ others ↔ place ∈ places) : Layered others layers := by
  induction layered generalizing others with
  | nil => exact .nil
  | @cons places layer later attached ahead rest ih =>
      have sameLeaves : ∀ hop : ResolvedEdge, hop.LeavesFrom others ↔ hop.LeavesFrom places :=
        fun hop => forall₂_congr fun leaving _ => same leaving.owner
      refine .cons ?_ ?_ (ih fun place => ?_)
      · exact fun hop isHop => (sameLeaves hop).mpr (attached hop isHop)
      · exact fun hop isHop => mt (sameLeaves hop).mp (ahead hop isHop)
      · rw [List.mem_append, List.mem_append, same]

theorem nodup_flatten (layered : Layered places layers)
    (distinct : ∀ layer ∈ layers, layer.Nodup) : layers.flatten.Nodup := by
  induction layered with
  | nil => exact List.nodup_nil
  | @cons places layer later attached ahead rest ih =>
      rw [List.flatten_cons]
      refine (distinct layer List.mem_cons_self).append
        (ih fun other isLater => distinct other (List.mem_cons_of_mem layer isLater)) ?_
      exact fun hop inLayer isLater => ahead hop isLater (attached hop inLayer)

theorem along {source : NodeId} {nodes : List NodeId} (held : .node source ∈ places)
    (isNew : ∀ node ∈ nodes, .node node ∉ places) (distinct : nodes.Nodup) :
    Layered places (inTurn (hopsFrom (some (.node source)) nodes)) := by
  induction nodes generalizing source places with
  | nil => exact .nil
  | cons next nodes ih =>
      obtain ⟨isLast, distinctLater⟩ := List.nodup_cons.mp distinct
      refine .cons ?_ ?_ (ih ?_ ?_ distinctLater)
      · intro hop isHop leaving isSource
        rw [List.mem_singleton.mp isHop] at isSource
        cases isSource
        exact held
      · intro hop isLater
        have isHop : hop ∈ hopsFrom (some (.node next)) nodes := by
          rwa [← flatten_inTurn (hopsFrom _ _)]
        rcases source_of_mem_hopsFrom isHop with atNext | ⟨node, isNode, atNode⟩
        · exact ResolvedEdge.not_leavesFrom atNext (isNew next List.mem_cons_self)
        · exact ResolvedEdge.not_leavesFrom atNode
            (isNew node (List.mem_cons_of_mem next (List.dropLast_subset nodes isNode)))
      · exact List.mem_append_right places List.mem_cons_self
      · intro node isNode
        rw [List.mem_append, not_or]
        refine ⟨isNew node (List.mem_cons_of_mem next isNode), fun isNext => ?_⟩
        cases List.mem_singleton.mp isNext
        exact isLast isNode

end Layered

def Surroundings.foldAll (surroundings : Surroundings) (hops : List ResolvedEdge) (expr : Expr) :
    Option Expr :=
  hops.foldlM (fun expr hop => surroundings.foldAtTop hop.source hop.target expr) expr

namespace Surroundings

variable {surroundings : Surroundings} {expr folded : Expr}

theorem foldAll_nil : surroundings.foldAll [] expr = some expr := rfl

theorem foldAll_cons {hop : ResolvedEdge} {hops : List ResolvedEdge}
    (found : surroundings.foldAtTop hop.source hop.target expr = some folded) :
    surroundings.foldAll (hop :: hops) expr = surroundings.foldAll hops folded := by
  rw [foldAll, List.foldlM_cons, found]
  rfl

theorem foldAll_append {front back : List ResolvedEdge}
    (found : surroundings.foldAll front expr = some folded) :
    surroundings.foldAll (front ++ back) expr = surroundings.foldAll back folded := by
  rw [foldAll] at found ⊢
  rw [List.foldlM_append, found]
  rfl

end Surroundings

/-! ### Drawing a layer -/

namespace Build.Draft

variable {workflow : Workflow} {hops drawn : List ResolvedEdge} {done : List EdgeId}
  {build : Build}

def reached (workflow : Workflow) (drawn : List ResolvedEdge) : List Reference :=
  entryTriggers workflow ++ placesBehind drawn

theorem contains_iff (draft : Draft workflow drawn done build) (leaving : Reference) :
    build.expr.contains leaving = true ↔ leaving.owner ∈ reached workflow drawn := by
  have covers := draft.sound.covers
  rw [reached, List.mem_append]
  constructor
  · intro inside
    have drawnBehind : ∀ edge ∈ done, ∀ source target,
        workflow.resolveEdge edge = .ok ⟨source, target⟩ → leaving.owner = .node target →
          leaving.owner ∈ placesBehind drawn := by
      intro edge isDone source target resolves same
      have isDrawn := (draft.exact ⟨source, target⟩).mpr ⟨edge, isDone, resolves⟩
      exact List.mem_map.mpr ⟨_, isDrawn, same.symm⟩
    rcases (covers.formed.contains_iff leaving).mp inside with isHead | ⟨before, isLink⟩
    · rcases (covers.heads _).mp isHead with isStart | ⟨edge, isDone, target, resolves, same⟩
      · exact Or.inl isStart
      · exact Or.inr (drawnBehind edge isDone none target resolves same)
    · obtain ⟨edge, isDone, target, resolves, same⟩ := (covers.links _).mp isLink
      exact Or.inr (drawnBehind edge isDone (some before) target resolves same)
  · rintro (isStart | isBehind)
    · exact covers.contains_of_start isStart
    · obtain ⟨hop, isDrawn, same⟩ := List.mem_map.mp isBehind
      rw [← contains_owner, ← same]
      exact draft.contains_target isDrawn

section Known

variable (coherent : workflow.Coherent) (complete : workflow.Complete) (draws : workflow.Draws hops)

include coherent complete draws in
private theorem exists_order (draft : Draft workflow drawn done build) {layer : List ResolvedEdge}
    (distinct : layer.Nodup)
    (isNext : ∀ hop, hop ∈ layer ↔
      hop ∈ hops ∧ hop ∉ drawn ∧ hop.LeavesFrom (reached workflow drawn)) :
    ∃ order : List ResolvedEdge, order.Perm layer ∧
      build.queue.pending.map workflow.resolveEdge = order.map .ok := by
  have resolved : ∀ outcome ∈ build.queue.pending.map workflow.resolveEdge,
      outcome ∈ Set.range (Except.ok : ResolvedEdge → Except DanglingCause ResolvedEdge) := by
    intro outcome present
    obtain ⟨edge, waits, rfl⟩ := List.mem_map.mp present
    obtain ⟨hop, _, resolves, _⟩ := draft.of_waits coherent draws waits
    exact ⟨hop, resolves.symm⟩
  obtain ⟨order, isOrder⟩ : build.queue.pending.map workflow.resolveEdge ∈
      Set.range (List.map (Except.ok : ResolvedEdge → Except DanglingCause ResolvedEdge)) := by
    rw [Set.range_list_map]
    exact resolved
  refine ⟨order, (List.perm_ext_iff_of_nodup ?_ distinct).mpr fun hop => ?_, isOrder.symm⟩
  · apply List.Nodup.of_map (Except.ok : ResolvedEdge → Except DanglingCause ResolvedEdge)
    rw [isOrder]
    refine (draft.nodup_pending coherent).map_on ?_
    intro edge waits other _ same
    obtain ⟨hop, _, resolves, _⟩ := draft.of_waits coherent draws waits
    exact draws.once resolves (same.symm.trans resolves)
  · have waits : hop ∈ order ↔ ∃ edge ∈ build.queue.pending,
        workflow.resolveEdge edge = .ok hop := by
      have injective : Function.Injective
          (Except.ok : ResolvedEdge → Except DanglingCause ResolvedEdge) :=
        fun _ _ same => Except.ok.inj same
      rw [← List.mem_map_of_injective injective, isOrder, List.mem_map]
    rw [waits, isNext]
    constructor
    · rintro ⟨edge, waits, resolves⟩
      obtain ⟨other, isHop, alsoResolves, undrawn, attached⟩ :=
        draft.of_waits coherent draws waits
      cases resolves.symm.trans alsoResolves
      exact ⟨isHop, undrawn, fun leaving isSource =>
        (draft.contains_iff leaving).mp (attached leaving isSource)⟩
    · rintro ⟨isHop, undrawn, attached⟩
      obtain ⟨edge, resolves⟩ := draws.drawn hop isHop
      refine ⟨edge, draft.waits_of_contains coherent complete draws resolves undrawn ?_, resolves⟩
      intro leaving isSource
      exact (draft.contains_iff leaving).mpr (attached leaving isSource)

include coherent in
private theorem drain_order {order : List ResolvedEdge} {edges : List EdgeId}
    (draft : Draft workflow drawn done build) (waits : edges <+: build.queue.pending)
    (resolve : edges.map workflow.resolveEdge = order.map .ok) :
    ∃ later allDone, build.drain workflow = later.drain workflow ∧
      Draft workflow (drawn ++ order) allDone later ∧
      workflow.surroundings.foldAll order build.expr = some later.expr := by
  induction order generalizing drawn done build edges with
  | nil => exact ⟨build, done, rfl, by rwa [List.append_nil], rfl⟩
  | cons hop order ih =>
      obtain ⟨edge, edges, rfl, resolves, resolveLater⟩ := List.map_eq_cons_iff.mp resolve
      obtain ⟨behind, isPending⟩ := waits
      have isFirst : build.queue.pending = edge :: (edges ++ behind) := isPending.symm
      obtain ⟨source, target⟩ := hop
      have held : ∀ leaving, source = some leaving → build.expr.contains leaving = true := by
        rintro leaving rfl
        have attached := draft.sound.attached edge (by rw [isFirst]; exact List.mem_cons_self)
        exact attached leaving target resolves
      obtain ⟨folded, found, _⟩ :=
        Workflow.exists_foldAtTop target draft.sound.covers.formed held
      have queueIs : build.queue = ⟨edge :: (edges ++ behind), build.queue.fresh⟩ := by
        rw [← isFirst]
      have grown : ∀ other, other ∈ drawn ++ [⟨source, target⟩] ↔
          other = ⟨source, target⟩ ∨ other ∈ drawn := by
        intro other
        rw [List.mem_append, List.mem_singleton, or_comm]
      obtain ⟨placed, isFolded, inFront⟩ := draft.place coherent queueIs resolves found grown
      obtain ⟨later, allDone, sameEnd, drawnLater, foldedLater⟩ :=
        ih placed ((List.prefix_append edges behind).trans inFront) resolveLater
      refine ⟨later, allDone, ?_, ?_, ?_⟩
      · rw [drain_of_pending_eq_cons workflow isFirst, sameEnd]
      · rwa [List.append_assoc] at drawnLater
      · rw [Surroundings.foldAll_cons found, ← isFolded]
        exact foldedLater

include coherent complete draws in
/-- All layers are drawn, one after the other. -/
theorem drain_layers {layers : List (List ResolvedEdge)}
    (layered : Layered (reached workflow drawn) layers)
    (parts : ∀ hop, hop ∈ hops ↔ hop ∈ drawn ∨ hop ∈ layers.flatten)
    (distinct : (drawn ++ layers.flatten).Nodup) (draft : Draft workflow drawn done build) :
    ∃ orders allDone, List.Forall₂ List.Perm orders layers ∧
      Draft workflow (drawn ++ layers.flatten) allDone (build.drain workflow) ∧
      workflow.surroundings.foldAll orders.flatten build.expr =
        some (build.drain workflow).expr := by
  induction layers generalizing drawn done build with
  | nil =>
      obtain ⟨order, isEmpty, waits⟩ := draft.exists_order coherent complete draws
        List.nodup_nil fun hop => by
          rw [parts hop, List.flatten_nil, or_iff_left List.not_mem_nil]
          exact iff_of_false List.not_mem_nil fun next => next.2.1 next.1
      rw [isEmpty.eq_nil, List.map_nil, List.map_eq_nil_iff] at waits
      rw [drain_of_pending_eq_nil workflow waits]
      exact ⟨[], done, .nil, by rwa [List.flatten_nil, List.append_nil], rfl⟩
  | cons layer layers ih =>
      obtain ⟨attached, ahead, rest⟩ : (∀ hop ∈ layer, hop.LeavesFrom (reached workflow drawn)) ∧
          (∀ hop ∈ layers.flatten, ¬hop.LeavesFrom (reached workflow drawn)) ∧
          Layered (reached workflow drawn ++ placesBehind layer) layers := by
        cases layered with
        | cons attached ahead rest => exact ⟨attached, ahead, rest⟩
      rw [List.flatten_cons] at parts distinct
      obtain ⟨order, isLayer, resolve⟩ := draft.exists_order coherent complete draws
        (List.nodup_append.mp (List.nodup_append.mp distinct).2.1).1 fun hop => by
          have apart := List.disjoint_of_nodup_append distinct
          rw [parts hop]
          grind [List.Disjoint]
      obtain ⟨later, laterDone, sameEnd, drawnLater, foldedLater⟩ :=
        draft.drain_order coherent List.prefix_rfl resolve
      have drawnLayer : Draft workflow (drawn ++ layer) laterDone later :=
        drawnLater.congr fun hop => by rw [List.mem_append, List.mem_append, isLayer.mem_iff]
      obtain ⟨orders, allDone, areLayers, drawnAll, foldedAll⟩ := ih
        (by rwa [reached, placesBehind, List.map_append, ← List.append_assoc])
        (fun hop => by rw [parts hop, List.mem_append, List.mem_append, or_assoc])
        (by rwa [List.append_assoc]) drawnLayer
      refine ⟨order :: orders, allDone, .cons isLayer areLayers, ?_, ?_⟩
      · rw [sameEnd, List.flatten_cons, ← List.append_assoc]
        exact drawnAll
      · rw [List.flatten_cons, Surroundings.foldAll_append foldedLater, sameEnd]
        exact foldedAll

end Known

end Build.Draft

/-! ### Main result -/

/-- A workflow whose edges lie in layers compiles to what folding them makes of its entry
triggers, layer by layer, and to no components. -/
theorem Workflow.compile_of_layered {workflow : Workflow} (coherent : workflow.Coherent)
    (complete : workflow.Complete) {layers : List (List ResolvedEdge)}
    (draws : workflow.Draws layers.flatten) (distinct : ∀ layer ∈ layers, layer.Nodup)
    (layered : Layered (entryTriggers workflow) layers) :
    workflow.compile.components = [] ∧
      ∃ orders, List.Forall₂ List.Perm orders layers ∧
        workflow.surroundings.foldAll orders.flatten
            (flatten workflow.hasDefaultExit ((entryTriggers workflow).map ofReference)) =
          some workflow.compile.main := by
  obtain ⟨progress, isDrained, atStart⟩ := Draft.start coherent
  have fromStart : Layered (Draft.reached workflow []) layers := by
    rwa [Draft.reached, placesBehind, List.map_nil, List.append_nil]
  obtain ⟨orders, done, areLayers, drawn, folded⟩ := atStart.drain_layers coherent complete draws
    fromStart (fun hop => by simp) (layered.nodup_flatten distinct)
  rw [← isDrained] at drawn folded
  exact ⟨drawn.components_eq_nil coherent draws (List.Subset.refl _), orders, areLayers, folded⟩

end FlowGraph
