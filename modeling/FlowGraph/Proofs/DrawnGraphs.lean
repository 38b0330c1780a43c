import FlowGraph.Proofs.OutgoingEdges

/-!
Workflows whose edges are known one by one. A build draws such a workflow edge by edge: an edge
that waits leaves what is drawn already and is not drawn itself, and an edge that could be drawn
waits until it is.
-/

namespace FlowGraph

open FlowGraph.Build FlowGraph.Expr

/-! ### Hops along nodes -/

def hopsFrom (source : Option Reference) : List NodeId → List ResolvedEdge
  | [] => []
  | first :: rest => ⟨source, first⟩ :: hopsFrom (some (.node first)) rest

def endOf (source : Option Reference) (nodes : List NodeId) : Option Reference :=
  (nodes.getLast?.map .node).or source

@[simp] theorem endOf_concat (source : Option Reference) (nodes : List NodeId) (last : NodeId) :
    endOf source (nodes ++ [last]) = some (.node last) := by
  rw [endOf, List.getLast?_concat]
  rfl

private theorem endOf_cons (source : Option Reference) (first : NodeId) (rest : List NodeId) :
    endOf source (first :: rest) = endOf (some (.node first)) rest := by
  rw [endOf, List.getLast?_cons, endOf]
  cases rest.getLast? <;> rfl

theorem endOf_append (source : Option Reference) (front back : List NodeId) :
    endOf source (front ++ back) = endOf (endOf source front) back := by
  rw [endOf, endOf, endOf, List.getLast?_append]
  cases back.getLast? <;> rfl

theorem mem_of_endOf {source : Option Reference} {nodes : List NodeId} {leaving : Reference}
    (isEnd : endOf source nodes = some leaving) :
    (∃ node ∈ nodes, leaving = .node node) ∨ nodes = [] ∧ source = some leaving := by
  rcases List.eq_nil_or_concat nodes with rfl | ⟨front, last, rfl⟩
  · exact Or.inr ⟨rfl, isEnd⟩
  · rw [List.concat_eq_append, endOf_concat] at isEnd
    cases isEnd
    exact Or.inl ⟨last, by simp, rfl⟩

theorem hopsFrom_append (source : Option Reference) (front back : List NodeId) :
    hopsFrom source (front ++ back) =
      hopsFrom source front ++ hopsFrom (endOf source front) back := by
  induction front generalizing source with
  | nil => rfl
  | cons first rest ih =>
      rw [List.cons_append, hopsFrom, hopsFrom, ih, endOf_cons, List.cons_append]

private theorem map_target_hopsFrom (source : Option Reference) (nodes : List NodeId) :
    (hopsFrom source nodes).map ResolvedEdge.target = nodes := by
  induction nodes generalizing source with
  | nil => rfl
  | cons first rest ih => rw [hopsFrom, List.map_cons, ih]

theorem target_of_mem_hopsFrom {source : Option Reference} {nodes : List NodeId}
    {hop : ResolvedEdge} (isHop : hop ∈ hopsFrom source nodes) : hop.target ∈ nodes := by
  rw [← map_target_hopsFrom source nodes]
  exact List.mem_map_of_mem isHop

theorem nodup_hopsFrom (source : Option Reference) {nodes : List NodeId} (distinct : nodes.Nodup) :
    (hopsFrom source nodes).Nodup := by
  apply List.Nodup.of_map ResolvedEdge.target
  rw [map_target_hopsFrom]
  exact distinct

theorem exists_hop_to {source : Option Reference} {nodes : List NodeId} {node : NodeId}
    (present : node ∈ nodes) : ∃ hop ∈ hopsFrom source nodes, hop.target = node := by
  rw [← map_target_hopsFrom source nodes] at present
  exact List.mem_map.mp present

theorem source_of_mem_hopsFrom {source : Option Reference} {nodes : List NodeId}
    {hop : ResolvedEdge} (isHop : hop ∈ hopsFrom source nodes) :
    hop.source = source ∨ ∃ node ∈ nodes.dropLast, hop.source = some (.node node) := by
  induction nodes generalizing source with
  | nil => cases isHop
  | cons first rest ih =>
      rcases List.mem_cons.mp isHop with rfl | later
      · exact Or.inl rfl
      · have occupied : rest ≠ [] := List.ne_nil_of_mem (target_of_mem_hopsFrom later)
        rw [List.dropLast_cons_of_ne_nil occupied]
        rcases ih later with atFirst | ⟨node, isNode, isSource⟩
        · exact Or.inr ⟨first, List.mem_cons_self, atFirst⟩
        · exact Or.inr ⟨node, List.mem_cons_of_mem first isNode, isSource⟩

theorem next_of_mem_hopsFrom {source : Option Reference} {front rest : List NodeId}
    {hop : ResolvedEdge} (isHop : hop ∈ hopsFrom source (front ++ rest))
    (ahead : hop ∉ hopsFrom source front)
    (attached : ∀ node ∈ rest.dropLast, hop.source ≠ some (.node node)) :
    ∃ next later, rest = next :: later ∧ hop = ⟨endOf source front, next⟩ := by
  rw [hopsFrom_append] at isHop
  have behind := (List.mem_append.mp isHop).resolve_left ahead
  match rest with
  | [] => cases behind
  | next :: later =>
      refine ⟨next, later, rfl, ?_⟩
      refine (List.mem_cons.mp behind).resolve_right fun isLater => ?_
      have occupied : later ≠ [] := List.ne_nil_of_mem (target_of_mem_hopsFrom isLater)
      rw [List.dropLast_cons_of_ne_nil occupied] at attached
      rcases source_of_mem_hopsFrom isLater with isNext | ⟨node, isNode, isSource⟩
      · exact attached next List.mem_cons_self isNext
      · exact attached node (List.mem_cons_of_mem next isNode) isSource

/-! ### Workflows of known hops -/

/-- The edges of a workflow are some hops, each once. Hops that leave no node are those of entry
edges, and a link back from a node that is entered is a hop, too. -/
structure Workflow.Draws (workflow : Workflow) (hops : List ResolvedEdge) : Prop where
  resolves : ∀ edge ∈ workflow.edges.ids, ∃ hop ∈ hops, workflow.resolveEdge edge = .ok hop
  drawn : ∀ hop ∈ hops, ∃ edge, workflow.resolveEdge edge = .ok hop
  once : ∀ {edge other hop}, workflow.resolveEdge edge = .ok hop →
    workflow.resolveEdge other = .ok hop → edge = other
  entries : ∀ {edge target}, workflow.resolveEdge edge = .ok ⟨none, target⟩ →
    edge ∈ workflow.entryEdges
  links : ∀ hop ∈ hops, ∀ {node}, workflow.hasLink hop.target node = true →
    ⟨some (.node hop.target), node⟩ ∈ hops

theorem Workflow.Draws.congr {workflow : Workflow} {hops others : List ResolvedEdge}
    (draws : workflow.Draws hops) (same : ∀ hop, hop ∈ others ↔ hop ∈ hops) :
    workflow.Draws others where
  resolves := by
    intro edge inIds
    obtain ⟨hop, isHop, resolves⟩ := draws.resolves edge inIds
    exact ⟨hop, (same hop).mpr isHop, resolves⟩
  drawn := fun hop isHop => draws.drawn hop ((same hop).mp isHop)
  once := draws.once
  entries := draws.entries
  links := fun hop isHop _ linked =>
    (same _).mpr (draws.links hop ((same hop).mp isHop) linked)

private theorem Workflow.mem_entryEdges_of_owner {workflow : Workflow}
    (coherent : workflow.Coherent)
    {edge : EdgeId} {leaving : Reference} {target : NodeId} {trigger : TriggerId}
    (resolves : workflow.resolveEdge edge = .ok ⟨some leaving, target⟩)
    (owned : leaving.owner = .trigger trigger) : edge ∈ workflow.entryEdges := by
  obtain ⟨entry, found, origin⟩ := origin_of_resolveEdge resolves
  rcases origin with ⟨_, impossible⟩ | ⟨other, origin, _⟩ | ⟨node, _, _, exits, same⟩
  · cases impossible
  · exact mem_entryEdges_of_trigger coherent found (lookupTrigger?_of_origin? origin)
  · cases same
    rw [owner_of_exitThrough? exits] at owned
    cases owned

private theorem EdgeQueue.prefix_enqueueAll (queue : EdgeQueue) (edges : List EdgeId) :
    queue.pending <+: (queue.enqueueAll edges).pending := by
  unfold enqueueAll
  induction edges generalizing queue with
  | nil => exact List.prefix_rfl
  | cons edge edges ih =>
      rw [List.foldl_cons]
      refine List.IsPrefix.trans ?_ (ih (queue.enqueue edge))
      unfold enqueue
      split
      · exact List.prefix_append _ _
      · exact List.prefix_rfl

namespace Build

variable {workflow : Workflow} {hops drawn : List ResolvedEdge} {done : List EdgeId}
  {build : Build} {edge : EdgeId} {hop : ResolvedEdge}

/-- A main build that has drawn some hops, and nothing else. -/
structure Draft (workflow : Workflow) (drawn : List ResolvedEdge) (done : List EdgeId)
    (build : Build) : Prop where
  sound : Sound workflow (entryTriggers workflow) workflow.edges.ids [] done build
  explored : Explored workflow build
  exact : ∀ hop, hop ∈ drawn ↔ ∃ edge ∈ done, workflow.resolveEdge edge = .ok hop

namespace Draft

theorem start (coherent : workflow.Coherent) : ∃ progress,
    workflow.mainBuild = (mainStart workflow progress).drain workflow ∧
      Draft workflow [] [] (mainStart workflow progress) := by
  refine ⟨_, main_eq workflow _, ?_, explored_mainStart coherent rfl, by simp⟩
  refine sound_mainStart coherent rfl ?_
  exact AllPlaced.nil.record nofun nofun

theorem congr (draft : Draft workflow drawn done build) {others : List ResolvedEdge}
    (same : ∀ hop, hop ∈ others ↔ hop ∈ drawn) : Draft workflow others done build :=
  ⟨draft.sound, draft.explored, fun hop => (same hop).trans (draft.exact hop)⟩

theorem step (coherent : workflow.Coherent) (draft : Draft workflow drawn done build)
    {pending fresh : List EdgeId} (queueIs : build.queue = ⟨edge :: pending, fresh⟩)
    (resolves : workflow.resolveEdge edge = .ok hop) :
    Draft workflow (hop :: drawn) (edge :: done)
      ({ build with queue := ⟨pending, fresh⟩ }.step workflow edge) where
  sound := sound_step coherent draft.sound queueIs
  explored := explored_step draft.explored queueIs
  exact := by
    intro other
    rw [List.mem_cons, draft.exact, List.exists_mem_cons_iff, resolves, Except.ok.injEq,
      @eq_comm _ hop]

/-- A step draws the hop of the edge that is next, and what else waits is next in turn. -/
theorem place (coherent : workflow.Coherent) (draft : Draft workflow drawn done build)
    {pending fresh : List EdgeId} (queueIs : build.queue = ⟨edge :: pending, fresh⟩)
    (resolves : workflow.resolveEdge edge = .ok hop) {folded : Expr}
    (found : workflow.surroundings.foldAtTop hop.source hop.target build.expr = some folded)
    {others : List ResolvedEdge} (grown : ∀ other, other ∈ others ↔ other = hop ∨ other ∈ drawn) :
    Draft workflow others (edge :: done)
        ({ build with queue := ⟨pending, fresh⟩ }.step workflow edge) ∧
      ({ build with queue := ⟨pending, fresh⟩ }.step workflow edge).expr = folded ∧
      pending <+: ({ build with queue := ⟨pending, fresh⟩ }.step workflow edge).queue.pending := by
  refine ⟨(draft.step coherent queueIs resolves).congr ?_, ?_, ?_⟩
  · intro other
    rw [grown, List.mem_cons]
  · rw [step_of_placed { build with queue := ⟨pending, fresh⟩ } resolves found]
  · rw [queue_step_behind]
    exact EdgeQueue.prefix_enqueueAll ⟨pending, fresh⟩ (behind workflow edge)

private theorem not_mem_done (coherent : workflow.Coherent)
    (draft : Draft workflow drawn done build)
    (waits : edge ∈ build.queue.pending) : edge ∉ done := by
  intro isDone
  have distinct := draft.sound.accounts.nodup_iff.mpr (Workflow.nodup_edge_ids coherent)
  exact (List.disjoint_of_nodup_append distinct) isDone (List.mem_append_left _ waits)

theorem nodup_pending (coherent : workflow.Coherent) (draft : Draft workflow drawn done build) :
    build.queue.pending.Nodup := by
  have distinct := draft.sound.accounts.nodup_iff.mpr (Workflow.nodup_edge_ids coherent)
  exact (List.nodup_append.mp (List.nodup_append.mp distinct).2.1).1

theorem contains_target (draft : Draft workflow drawn done build) (isDrawn : hop ∈ drawn) :
    build.expr.contains (.node hop.target) = true := by
  obtain ⟨edge, isDone, resolves⟩ := (draft.exact hop).mp isDrawn
  obtain ⟨source, target⟩ := hop
  rw [draft.sound.covers.formed.contains_iff]
  cases source with
  | none =>
      exact Or.inl ((draft.sound.covers.heads _).mpr (Or.inr ⟨edge, isDone, _, resolves, rfl⟩))
  | some leaving =>
      exact Or.inr ⟨leaving, (draft.sound.covers.links _).mpr ⟨edge, isDone, _, resolves, rfl⟩⟩

section Known

variable (coherent : workflow.Coherent) (complete : workflow.Complete) (draws : workflow.Draws hops)
  (draft : Draft workflow drawn done build)

include coherent draws draft in
theorem of_waits (waits : edge ∈ build.queue.pending) :
    ∃ hop ∈ hops, workflow.resolveEdge edge = .ok hop ∧ hop ∉ drawn ∧
      ∀ leaving, hop.source = some leaving → build.expr.contains leaving = true := by
  have inScope : edge ∈ workflow.edges.ids :=
    draft.sound.accounts.subset (List.mem_append_right _ (List.mem_append_left _ waits))
  obtain ⟨hop, isHop, resolves⟩ := draws.resolves edge inScope
  refine ⟨hop, isHop, resolves, ?_, ?_⟩
  · intro isDrawn
    obtain ⟨other, isDone, alsoResolves⟩ := (draft.exact hop).mp isDrawn
    rw [draws.once alsoResolves resolves] at isDone
    exact draft.not_mem_done coherent waits isDone
  · intro leaving isSource
    obtain ⟨source, target⟩ := hop
    cases isSource
    exact draft.sound.attached edge waits leaving target resolves

include coherent complete draws draft in
theorem waits_of_contains (resolves : workflow.resolveEdge edge = .ok hop) (undrawn : hop ∉ drawn)
    (attached : ∀ leaving, hop.source = some leaving → build.expr.contains leaving = true) :
    edge ∈ build.queue.pending := by
  obtain ⟨source, target⟩ := hop
  have inScope := Workflow.mem_edge_ids_of_resolveEdge coherent resolves
  have notFresh : edge ∉ build.queue.fresh := by
    cases source with
    | none => exact draft.explored.entriesMet edge (draws.entries resolves)
    | some leaving =>
        -- Whatever holds the source came in with an edge, or is a trigger at the start.
        have inside := (draft.sound.covers.formed.contains_iff leaving).mp (attached leaving rfl)
        have behind : ∀ other ∈ done, ∀ place entered,
            workflow.resolveEdge other = .ok ⟨place, entered⟩ →
              leaving.owner = .node entered → edge ∉ build.queue.fresh := by
          intro other isDone place entered otherResolves isEntered
          have isProcessed : other ∈ build.progress.processed := by
            rw [draft.sound.processed, List.append_nil]
            exact isDone
          exact draft.explored.nextMet other isProcessed _ otherResolves edge
            (Workflow.mem_outgoing_of_resolveEdge coherent complete resolves isEntered)
        rcases inside with isHead | ⟨before, isLink⟩
        · rcases (draft.sound.covers.heads _).mp isHead with isStart | ⟨other, isDone, enters⟩
          · obtain ⟨_, _, _, trigger, _, _, isTrigger⟩ := mem_entryTriggers.mp isStart
            exact draft.explored.entriesMet edge
              (Workflow.mem_entryEdges_of_owner coherent resolves isTrigger)
          · obtain ⟨entered, otherResolves, isEntered⟩ := enters
            exact behind other isDone none entered otherResolves isEntered
        · obtain ⟨other, isDone, entered, otherResolves, isEntered⟩ :=
            (draft.sound.covers.links _).mp isLink
          exact behind other isDone (some before) entered otherResolves isEntered
  have present := draft.sound.accounts.symm.subset inScope
  rcases List.mem_append.mp present with isDone | inQueue
  · exact absurd ((draft.exact _).mpr ⟨edge, isDone, resolves⟩) undrawn
  · exact (List.mem_append.mp inQueue).resolve_right notFresh

include coherent complete draws draft in
private theorem mem_drawn_of_contains (noneWaits : build.queue.pending = []) (isHop : hop ∈ hops)
    (attached : ∀ leaving, hop.source = some leaving → build.expr.contains leaving = true) :
    hop ∈ drawn := by
  by_contra undrawn
  obtain ⟨edge, resolves⟩ := draws.drawn hop isHop
  have waits := draft.waits_of_contains coherent complete draws resolves undrawn attached
  rw [noneWaits] at waits
  cases waits

include coherent complete draws draft in
theorem hopsFrom_subset_drawn (noneWaits : build.queue.pending = []) {source : Option Reference}
    {nodes : List NodeId} (areHops : hopsFrom source nodes ⊆ hops)
    (attached : ∀ leaving, source = some leaving → build.expr.contains leaving = true) :
    hopsFrom source nodes ⊆ drawn := by
  induction nodes generalizing source with
  | nil => exact List.nil_subset drawn
  | cons first rest ih =>
      obtain ⟨isFirst, areLater⟩ := List.cons_subset.mp areHops
      have isDrawn := draft.mem_drawn_of_contains coherent complete draws noneWaits isFirst attached
      refine List.cons_subset.mpr ⟨isDrawn, ih areLater ?_⟩
      intro leaving isSource
      cases isSource
      exact draft.contains_target isDrawn

include coherent draws in
/-- If the main build draws all hops, it leaves nothing over. -/
theorem components_eq_nil (draft : Draft workflow drawn done workflow.mainBuild)
    (all : hops ⊆ drawn) : workflow.compile.components = [] := by
  have noneLeft : leftover workflow workflow.mainBuild.progress = [] := by
    have noneIn : (leftover workflow workflow.mainBuild.progress).map Prod.fst = [] := by
      refine List.eq_nil_iff_forall_not_mem.mpr fun edge isLeft => ?_
      obtain ⟨inIds, unprocessed⟩ := (mem_leftover coherent).mp isLeft
      obtain ⟨hop, isHop, resolves⟩ := draws.resolves edge inIds
      obtain ⟨other, isDone, alsoResolves⟩ := (draft.exact hop).mp (all isHop)
      rw [draws.once alsoResolves resolves] at isDone
      rw [draft.sound.processed, List.append_nil] at unprocessed
      exact unprocessed isDone
    exact List.map_eq_nil_iff.mp noneIn
  have built : workflow.compile.components =
      (components workflow workflow.mainBuild.progress).1 := rfl
  rw [built, components, noneLeft]

end Known

end Draft

end Build

/-! ### Hops of a document -/

def linksAlong (source : String) : List String → List (String × String)
  | [] => []
  | first :: rest => (source, first) :: linksAlong first rest

def hopOf (origin : String → Option Reference) (place : String → NodeId)
    (link : String × String) : ResolvedEdge :=
  ⟨origin link.1, place link.2⟩

theorem map_linksAlong {origin : String → Option Reference} {place : String → NodeId}
    {ids : List String} (leaves : ∀ id ∈ ids.dropLast, origin id = some (.node (place id)))
    (source : String) :
    (linksAlong source ids).map (hopOf origin place) =
      hopsFrom (origin source) (ids.map place) := by
  induction ids generalizing source with
  | nil => rfl
  | cons first rest ih =>
      rw [linksAlong, List.map_cons, List.map_cons, hopsFrom, hopOf]
      by_cases last : rest = []
      · rw [last]
        rfl
      · rw [List.dropLast_cons_of_ne_nil last] at leaves
        rw [ih (fun id present => leaves id (List.mem_cons_of_mem first present)),
          leaves first List.mem_cons_self]

theorem ends_of_mem_linksAlong {source : String} {ids : List String} {link : String × String}
    (isLink : link ∈ linksAlong source ids) : (link.1 = source ∨ link.1 ∈ ids) ∧ link.2 ∈ ids := by
  induction ids generalizing source with
  | nil => cases isLink
  | cons first rest ih =>
      rcases List.mem_cons.mp isLink with rfl | later
      · exact ⟨Or.inl rfl, List.mem_cons_self⟩
      · obtain ⟨isSource, isTarget⟩ := ih later
        refine ⟨Or.inr ?_, List.mem_cons_of_mem first isTarget⟩
        rcases isSource with rfl | inRest
        · exact List.mem_cons_self
        · exact List.mem_cons_of_mem first inRest

theorem origin_getLastD {origin : String → Option Reference} {place : String → NodeId}
    {ids : List String} (leaves : ∀ id ∈ ids, origin id = some (.node (place id)))
    (source : String) :
    origin (ids.getLastD source) = endOf (origin source) (ids.map place) := by
  rcases List.eq_nil_or_concat ids with rfl | ⟨front, last, rfl⟩
  · rfl
  · rw [List.concat_eq_append] at leaves ⊢
    rw [List.getLastD_concat, leaves last (by simp), List.map_append, List.map_singleton,
      endOf_concat]

theorem Document.eq_of_nodeOf? (document : Document) {id other : String} {node : NodeId}
    (found : document.nodeOf? id = some node) (alsoFound : document.nodeOf? other = some node) :
    id = other := by
  obtain ⟨number, isFirst, rfl⟩ := Option.map_eq_some_iff.mp found
  obtain ⟨_, isOther, same⟩ := Option.map_eq_some_iff.mp alsoFound
  cases same
  obtain ⟨_, isId, _⟩ := List.findIdx?_eq_some_iff_getElem.mp isFirst
  obtain ⟨_, isOtherId, _⟩ := List.findIdx?_eq_some_iff_getElem.mp isOther
  exact (beq_iff_eq.mp isId).symm.trans (beq_iff_eq.mp isOtherId)

def Document.place (document : Document) (id : String) : NodeId :=
  (document.nodeOf? id).getD ⟨0⟩

theorem Document.nodeOf?_eq_place (document : Document) {id : String}
    (declared : ∃ node ∈ document.nodes, node.id = id) :
    document.nodeOf? id = some (document.place id) := by
  obtain ⟨node, isNode, isId⟩ := declared
  have found : (document.nodes.findIdx? fun entry => entry.id == id).isSome = true := by
    rw [List.findIdx?_isSome, List.any_eq_true]
    exact ⟨node, isNode, beq_iff_eq.mpr isId⟩
  obtain ⟨number, atNumber⟩ := Option.isSome_iff_exists.mp found
  rw [place, Document.nodeOf?, atNumber]
  rfl

theorem Document.nodup_places (document : Document) {ids : List String} (distinct : ids.Nodup)
    (declared : ∀ id ∈ ids, ∃ node ∈ document.nodes, node.id = id) :
    (ids.map document.place).Nodup := by
  refine List.Nodup.map_on ?_ distinct
  intro id present other alsoPresent same
  have found := document.nodeOf?_eq_place (declared id present)
  rw [same] at found
  exact document.eq_of_nodeOf? found (document.nodeOf?_eq_place (declared other alsoPresent))

private theorem Document.target_of_resolve (document : Document) {edge : EdgeEntry}
    {resolved : ResolvedEdge} (resolves : document.resolve edge = .ok resolved) :
    document.nodeOf? edge.targetNode = some resolved.target := by
  rw [resolve] at resolves
  split at resolves
  · cases resolves
  · rename_i target isTarget
    split at resolves
    · cases resolves
      exact isTarget
    · split at resolves
      · cases resolves
        exact isTarget
      · cases resolves
      · split at resolves
        · cases resolves
        · cases resolves
          exact isTarget

theorem Workflow.Written.hasTriggers_eq_false {document : Document} {workflow : Workflow}
    (written : workflow.Written document) (noTriggers : document.triggers = []) :
    workflow.hasTriggers = false := by
  have noneStored := written.triggers
  rw [noTriggers, List.forall₂_nil_left_iff] at noneStored
  rw [hasTriggers, Arena.isEmpty, Array.isEmpty_iff.mpr (Array.toList_eq_nil_iff.mp noneStored)]
  rfl

private theorem Workflow.Written.resolveEdge_eq_ok_iff {document : Document} {workflow : Workflow}
    (written : workflow.Written document) {edge : EdgeId} {hop : ResolvedEdge} :
    workflow.resolveEdge edge = .ok hop ↔
      (document.edges.map document.resolve)[edge.number]? = some (.ok hop) := by
  rw [written.resolveEdge_eq, List.getElem?_map]
  cases document.edges[edge.number]? <;> simp

private theorem Workflow.Written.mem_entryEdges_of_resolveEdge {document : Document}
    {workflow : Workflow}
    (written : workflow.Written document) (noTriggers : document.triggers = []) {edge : EdgeId}
    {target : NodeId} (resolves : workflow.resolveEdge edge = .ok ⟨none, target⟩) :
    edge ∈ workflow.entryEdges := by
  obtain ⟨entry, found, origin⟩ := origin_of_resolveEdge resolves
  have isEntrance : workflow.isEntrypoint entry.sourceNode = true := by
    rcases origin with ⟨isEntrance, _⟩ | ⟨_, _, impossible⟩ | ⟨_, _, _, _, impossible⟩
    · rw [isEntrypoint, isEntrypoint_of_origin? isEntrance]
      exact beq_self_eq_true _
    · cases impossible
    · cases impossible
  refine (mem_entryEdges written.coherent).mpr ⟨entry, found, ?_⟩
  rw [isEntryEdge, written.hasTriggers_eq_false noTriggers, if_neg Bool.false_ne_true]
  exact isEntrance

/-- A loaded workflow draws the hops that the edges of its document resolve to, each once. No
edge may leave the entrypoint if there are triggers, and a node that is entered may be left by
plain edges only. -/
theorem Workflow.draws_of_load {document : Document} {workflow : Workflow}
    (loaded : load document = .ok workflow) {hops : List ResolvedEdge}
    (resolved : (document.edges.map document.resolve).Perm (hops.map .ok)) (distinct : hops.Nodup)
    (entries : ∀ hop ∈ hops, hop.source = none → document.triggers = [])
    (plain : ∀ edge ∈ document.edges, ∀ hop ∈ hops,
      document.nodeOf? edge.sourceNode = some hop.target →
        ∃ target, document.resolve edge = .ok ⟨some (.node hop.target), target⟩) :
    workflow.Draws hops := by
  have written := written_of_load loaded
  have injective : Function.Injective (Except.ok : ResolvedEdge → Except DanglingCause _) :=
    fun _ _ same => Except.ok.inj same
  have isHop_of_mem : ∀ {hop}, .ok hop ∈ document.edges.map document.resolve → hop ∈ hops :=
    fun present => (List.mem_map_of_injective injective).mp (resolved.subset present)
  refine { resolves := ?_, drawn := ?_, once := ?_, entries := ?_, links := ?_ }
  · intro edge inIds
    rw [written.numbered.edges] at inIds
    obtain ⟨number, inRange, rfl⟩ := List.mem_map.mp inIds
    have present := List.getElem_mem (List.mem_range.mp inRange)
    obtain ⟨hop, isHop, same⟩ := List.mem_map.mp (resolved.subset (List.mem_map_of_mem present))
    refine ⟨hop, isHop, written.resolveEdge_eq_ok_iff.mpr ?_⟩
    rw [List.getElem?_map, List.getElem?_eq_getElem (List.mem_range.mp inRange), same]
    rfl
  · intro hop isHop
    obtain ⟨number, isPlace⟩ :=
      List.getElem?_of_mem (resolved.symm.subset (List.mem_map_of_mem isHop))
    exact ⟨⟨number⟩, written.resolveEdge_eq_ok_iff.mpr isPlace⟩
  · intro edge other hop resolves alsoResolves
    have apart := resolved.nodup_iff.mpr (distinct.map injective)
    have isPlace := written.resolveEdge_eq_ok_iff.mp resolves
    have alsoPlace := written.resolveEdge_eq_ok_iff.mp alsoResolves
    have inside := (List.getElem?_eq_some_iff.mp isPlace).1
    exact ArenaId.eq_of_number_eq
      ((List.getElem?_inj inside apart).mp (isPlace.trans alsoPlace.symm))
  · intro edge target resolves
    have isHop := isHop_of_mem (List.mem_of_getElem? (written.resolveEdge_eq_ok_iff.mp resolves))
    exact written.mem_entryEdges_of_resolveEdge (entries _ isHop rfl) resolves
  · intro hop isHop node linked
    obtain ⟨edge, present, fromNode, toNode⟩ := written.hasLink_iff_exists_entry.mp linked
    obtain ⟨target, resolves⟩ := plain edge present hop isHop fromNode
    have sameTarget : target = node :=
      Option.some.inj ((document.target_of_resolve resolves).symm.trans toNode)
    rw [← sameTarget]
    exact isHop_of_mem (resolves ▸ List.mem_map_of_mem present)

end FlowGraph
