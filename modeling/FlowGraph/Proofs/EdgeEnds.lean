import FlowGraph.Expr.Denotation
import FlowGraph.Proofs.LoadedWorkflow
import FlowGraph.Workflow.Resolution

/-!
What the edges of a loaded workflow leave and enter. An edge that leaves a trigger is an
entry edge, and any other edge found among those that leave a node either belongs to
that node, leaves the structural entry or dangles.
-/

namespace FlowGraph.Workflow

variable {workflow : Workflow} {edge : EdgeId}

def Joins (workflow : Workflow) (edge : EdgeId) (link : Reference × Reference) : Prop :=
  ∃ target, workflow.resolveEdge edge = .ok ⟨some link.1, target⟩ ∧ link.2 = .node target

def Enters (workflow : Workflow) (edge : EdgeId) (head : Reference) : Prop :=
  ∃ target, workflow.resolveEdge edge = .ok ⟨none, target⟩ ∧ head = .node target

/-! ### Edges by their raw ids -/

theorem mem_edgesWhere (coherent : workflow.Coherent) {test : Edge → Bool} :
    edge ∈ workflow.edgesWhere test ↔
      ∃ entry, workflow.edge? edge = some entry ∧ test entry = true := by
  have fits := Nat.le_of_lt coherent.edgesFit
  rw [edgesWhere, List.mem_map]
  constructor
  · intro present
    obtain ⟨⟨other, entry⟩, inside, rfl⟩ := present
    obtain ⟨stored, passes⟩ := List.mem_filter.mp inside
    exact ⟨entry, (Arena.mem_enumerate fits).mp stored, passes⟩
  · intro present
    obtain ⟨entry, found, passes⟩ := present
    exact ⟨(edge, entry), List.mem_filter.mpr ⟨(Arena.mem_enumerate fits).mpr found, passes⟩, rfl⟩

theorem edgesWhere_sublist (workflow : Workflow) (test : Edge → Bool) :
    (workflow.edgesWhere test).Sublist workflow.edges.ids := by
  rw [← Arena.map_fst_enumerate]
  exact List.filter_sublist.map Prod.fst

theorem nodup_edge_ids (coherent : workflow.Coherent) : workflow.edges.ids.Nodup :=
  Arena.nodup_ids (Nat.le_of_lt coherent.edgesFit)

theorem mem_edge_ids_of_resolveEdge (coherent : workflow.Coherent) {resolved : ResolvedEdge}
    (resolves : workflow.resolveEdge edge = .ok resolved) : edge ∈ workflow.edges.ids := by
  rw [Arena.mem_ids (Nat.le_of_lt coherent.edgesFit)]
  cases found : workflow.edges.get? edge with
  | some entry => exact ⟨entry, rfl⟩
  | none =>
      have missing : workflow.edge? edge = none := found
      rw [resolveEdge, missing] at resolves
      cases resolves

/-! ### Resolving the source -/

theorem owner_of_exitThrough? {node : NodeId} {port : Option IdentId} {leaving : Reference}
    (found : workflow.exitThrough? node port = some leaving) : leaving.owner = .node node := by
  cases port with
  | none =>
      cases found
      rfl
  | some ident =>
      rw [exitThrough?] at found
      split at found
      · cases found
      · split at found
        · split at found
          · cases found
            rfl
          · cases found
            rfl
        · cases found

/-- An edge that resolves is stored, and its source is what its raw source id stands for:
a reference of that owner, or nothing for the entrypoint. -/
theorem origin_of_resolveEdge {source : Option Reference} {target : NodeId}
    (resolves : workflow.resolveEdge edge = .ok ⟨source, target⟩) :
    ∃ entry, workflow.edge? edge = some entry ∧
      (workflow.origin? entry.sourceNode = some .entrypoint ∧ source = none ∨
        (∃ trigger, workflow.origin? entry.sourceNode = some (.trigger trigger) ∧
          source = some (.trigger trigger)) ∨
        ∃ node leaving, workflow.origin? entry.sourceNode = some (.node node) ∧
          workflow.exitThrough? node entry.sourcePort = some leaving ∧ source = some leaving) := by
  rw [resolveEdge] at resolves
  split at resolves
  · cases resolves
  · rename_i entry found
    refine ⟨entry, found, ?_⟩
    rw [resolve] at resolves
    split at resolves
    · cases resolves
    · split at resolves
      · cases resolves
      · rename_i origin
        cases resolves
        exact Or.inl ⟨origin, rfl⟩
      · rename_i trigger origin
        cases resolves
        exact Or.inr (Or.inl ⟨trigger, origin, rfl⟩)
      · rename_i node origin
        split at resolves
        · cases resolves
        · rename_i leaving exits
          cases resolves
          exact Or.inr (Or.inr ⟨node, leaving, origin, exits, rfl⟩)

theorem target_of_resolveEdge {resolved : ResolvedEdge}
    (resolves : workflow.resolveEdge edge = .ok resolved) :
    ∃ entry, workflow.edge? edge = some entry ∧
      workflow.lookupNode? entry.targetNode = some resolved.target := by
  rw [resolveEdge] at resolves
  split at resolves
  · cases resolves
  · rename_i entry found
    refine ⟨entry, found, ?_⟩
    rw [resolve] at resolves
    split at resolves
    · cases resolves
    · rename_i target isTarget
      split at resolves
      · cases resolves
      · cases resolves
        exact isTarget
      · cases resolves
        exact isTarget
      · split at resolves
        · cases resolves
        · cases resolves
          exact isTarget

theorem lookupTrigger?_of_origin? {ident : IdentId} {trigger : TriggerId}
    (origin : workflow.origin? ident = some (.trigger trigger)) :
    workflow.lookupTrigger? ident = some trigger := by
  rw [origin?] at origin
  split at origin
  · cases origin
  · split at origin
    · rename_i found
      cases origin
      exact found
    · cases found : workflow.lookupNode? ident with
      | none =>
          rw [found] at origin
          cases origin
      | some node =>
          rw [found] at origin
          cases origin

theorem lookupNode?_of_origin? {ident : IdentId} {node : NodeId}
    (origin : workflow.origin? ident = some (.node node)) :
    workflow.lookupNode? ident = some node := by
  rw [origin?] at origin
  split at origin
  · cases origin
  · split at origin
    · cases origin
    · obtain ⟨other, found, same⟩ := Option.map_eq_some_iff.mp origin
      cases same
      exact found

private theorem origin?_of_isEntrypoint {ident : IdentId}
    (entrance : workflow.isEntrypoint ident = true) :
    workflow.origin? ident = some .entrypoint := by
  rw [origin?, if_pos entrance]

/-! ### Entry edges -/

theorem mem_entryEdges (coherent : workflow.Coherent) :
    edge ∈ workflow.entryEdges ↔
      ∃ entry, workflow.edge? edge = some entry ∧ workflow.isEntryEdge entry = true :=
  mem_edgesWhere coherent

theorem lookupTrigger?_of_mem_entryEdges (coherent : workflow.Coherent)
    (entrance : edge ∈ workflow.entryEdges) {leaving : Reference} {target : NodeId}
    (resolves : workflow.resolveEdge edge = .ok ⟨some leaving, target⟩) :
    ∃ entry trigger, workflow.edge? edge = some entry ∧
      workflow.lookupTrigger? entry.sourceNode = some trigger ∧ leaving = .trigger trigger := by
  obtain ⟨entry, found, isEntry⟩ := (mem_entryEdges coherent).mp entrance
  obtain ⟨other, foundOther, origin⟩ := origin_of_resolveEdge resolves
  cases found.symm.trans foundOther
  rcases origin with ⟨_, impossible⟩ | ⟨trigger, origin, same⟩ | ⟨node, _, origin, _, _⟩
  · cases impossible
  · cases same
    exact ⟨entry, trigger, found, lookupTrigger?_of_origin? origin, rfl⟩
  · -- The raw source id stands for a node, so it is no entry.
    rw [isEntryEdge] at isEntry
    split at isEntry
    · obtain ⟨trigger, declared⟩ := Option.isSome_iff_exists.mp isEntry
      rw [origin?] at origin
      split at origin
      · cases origin
      · rw [declared] at origin
        cases origin
    · rw [origin?_of_isEntrypoint isEntry] at origin
      cases origin

theorem mem_entryEdges_of_trigger (coherent : workflow.Coherent) {entry : Edge}
    {trigger : TriggerId} (found : workflow.edge? edge = some entry)
    (declared : workflow.lookupTrigger? entry.sourceNode = some trigger) :
    edge ∈ workflow.entryEdges := by
  refine (mem_entryEdges coherent).mpr ⟨entry, found, ?_⟩
  rw [isEntryEdge, if_pos (coherent.triggersExist declared), declared]
  rfl

/-! ### Edges that leave a node -/

theorem mem_edgesThroughPort (coherent : workflow.Coherent) {port : PortId} :
    edge ∈ workflow.edgesThroughPort port ↔
      ∃ portEntry entry, workflow.port? port = some portEntry ∧
        workflow.edge? edge = some entry ∧ entry.sourcePort = some portEntry.ident := by
  cases isPort : workflow.port? port with
  | none => simp [edgesThroughPort, isPort]
  | some portEntry => simp [edgesThroughPort, isPort, mem_edgesWhere coherent]

theorem mem_portlessEdges (coherent : workflow.Coherent) {node : NodeId} :
    edge ∈ workflow.portlessEdges node ↔
      ∃ nodeEntry entry, workflow.node? node = some nodeEntry ∧
        workflow.edge? edge = some entry ∧ entry.sourcePort = none ∧
          entry.sourceNode = nodeEntry.ident := by
  cases isNode : workflow.node? node with
  | none => simp [portlessEdges, isNode]
  | some nodeEntry => simp [portlessEdges, isNode, mem_edgesWhere coherent]

theorem mem_outgoing {node : NodeId} :
    edge ∈ workflow.outgoing node ↔
      (∃ port ∈ workflow.portsOf node, edge ∈ workflow.edgesThroughPort port) ∨
        edge ∈ workflow.portlessEdges node := by
  rw [outgoing, List.mem_append, List.mem_flatMap]

private theorem eq_of_exitThrough?_of_owns (coherent : workflow.Coherent) {node other : NodeId}
    {port : PortId} {portEntry : Port} {leaving : Reference} (owns : workflow.Owns node port)
    (isPort : workflow.port? port = some portEntry)
    (exits : workflow.exitThrough? other (some portEntry.ident) = some leaving) :
    other = node := by
  obtain ⟨ownEntry, isOwn, ofNode⟩ := owns
  cases isPort.symm.trans isOwn
  rw [exitThrough?, coherent.portDeclared isPort] at exits
  dsimp only at exits
  split at exits
  · rename_i ofOther
    rw [isPort, Option.any_some, beq_iff_eq] at ofOther
    exact ofOther.symm.trans ofNode
  · cases exits

/-- An edge found among those that leave a node, and that leaves a reference, leaves one
of that node or is an entry edge. -/
theorem owner_of_mem_outgoing (coherent : workflow.Coherent) {node target : NodeId}
    {leaving : Reference} (isOutgoing : edge ∈ workflow.outgoing node)
    (resolves : workflow.resolveEdge edge = .ok ⟨some leaving, target⟩) :
    leaving.owner = .node node ∨ edge ∈ workflow.entryEdges := by
  obtain ⟨entry, found, origin⟩ := origin_of_resolveEdge resolves
  rcases origin with ⟨_, impossible⟩ | ⟨trigger, origin, _⟩ | ⟨other, _, origin, exits, same⟩
  · cases impossible
  · exact Or.inr (mem_entryEdges_of_trigger coherent found (lookupTrigger?_of_origin? origin))
  · cases same
    refine Or.inl ((owner_of_exitThrough? exits).trans (congrArg Reference.node ?_))
    rcases mem_outgoing.mp isOutgoing with ⟨port, isOwn, throughPort⟩ | portless
    · obtain ⟨portEntry, stored, isPort, isStored, named⟩ :=
        (mem_edgesThroughPort coherent).mp throughPort
      cases found.symm.trans isStored
      rw [named] at exits
      have owns : workflow.Owns node port := by
        rw [portsOf] at isOwn
        split at isOwn
        · rename_i nodeEntry isNode
          exact coherent.portsOwned isNode isOwn
        · cases isOwn
      exact eq_of_exitThrough?_of_owns coherent owns isPort exits
    · obtain ⟨nodeEntry, stored, isNode, isStored, _, fromNode⟩ :=
        (mem_portlessEdges coherent).mp portless
      cases found.symm.trans isStored
      have declared := lookupNode?_of_origin? origin
      rw [fromNode, coherent.nodeDeclared isNode] at declared
      exact (Option.some.inj declared).symm

end FlowGraph.Workflow
