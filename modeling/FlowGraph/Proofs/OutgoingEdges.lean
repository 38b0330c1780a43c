import FlowGraph.Proofs.FaithfulLoading
import FlowGraph.Proofs.LoadableDocuments
import FlowGraph.Proofs.Locality

/-!
What is found by raw ids alone and what edges resolve to. The edges that leave a node are
found by its ports and its id, whoever owns the ports and whatever else has the id; among the
edges that resolve to a node as their source they are still exactly those of the node.
-/

namespace FlowGraph

namespace Workflow

variable {document : Document} {workflow : Workflow} {edge : EdgeId} {leaving : Reference}
  {node owner target : NodeId}

/-! ### Each edge once -/

private theorem nodup_portsOf (loaded : load document = .ok workflow) (node : NodeId) :
    (workflow.portsOf node).Nodup := by
  have written := written_of_load loaded
  have portIds := (loadable_of_load loaded).portIds
  rw [portsOf]
  split
  · rename_i stored isNode
    obtain ⟨entry, isEntry, reads⟩ := written.exists_nodeEntry isNode
    have ofEntry : (entry.ports.map PortEntry.id).Nodup :=
      (List.nodup_flatMap.mp portIds).1 entry (List.mem_of_getElem? isEntry)
    -- The id of a port can be read back, so a port under two ids cannot be.
    let text (port : PortId) : Option String :=
      (workflow.port? port).bind fun stored => workflow.identText? stored.ident
    have texts : stored.ports.map text = (entry.ports.map PortEntry.id).map some := by
      rw [List.map_map, ← List.forall₂_eq_eq_eq, List.forall₂_map_left_iff,
        List.forall₂_map_right_iff]
      refine reads.ports.flip.imp ?_
      rintro port written ⟨entry, isPort, readsPort⟩
      rw [Function.comp_apply, ← readsPort.ident]
      exact congrArg (Option.bind · fun stored => workflow.identText? stored.ident) isPort
    have distinct := ofEntry.map fun _ _ same => Option.some.inj same
    rw [← texts] at distinct
    exact distinct.of_map text
  · exact List.nodup_nil

private theorem nodup_edgesWhere (coherent : workflow.Coherent) (test : Edge → Bool) :
    (workflow.edgesWhere test).Nodup :=
  (nodup_edge_ids coherent).sublist (workflow.edgesWhere_sublist test)

private theorem nodup_edgesThroughPort (coherent : workflow.Coherent) (port : PortId) :
    (workflow.edgesThroughPort port).Nodup := by
  rw [edgesThroughPort]
  split
  · exact nodup_edgesWhere coherent _
  · exact List.nodup_nil

private theorem nodup_portlessEdges (coherent : workflow.Coherent) (node : NodeId) :
    (workflow.portlessEdges node).Nodup := by
  rw [portlessEdges]
  split
  · exact nodup_edgesWhere coherent _
  · exact List.nodup_nil

private theorem eq_of_mem_edgesThroughPort (coherent : workflow.Coherent) {port other : PortId}
    (throughPort : edge ∈ workflow.edgesThroughPort port)
    (throughOther : edge ∈ workflow.edgesThroughPort other) : port = other := by
  obtain ⟨portEntry, entry, isPort, found, named⟩ := (mem_edgesThroughPort coherent).mp throughPort
  obtain ⟨otherEntry, again, isOther, foundAgain, namedOther⟩ :=
    (mem_edgesThroughPort coherent).mp throughOther
  cases found.symm.trans foundAgain
  have sameIdent : portEntry.ident = otherEntry.ident :=
    Option.some.inj (named.symm.trans namedOther)
  have declared := coherent.portDeclared isPort
  rw [sameIdent, coherent.portDeclared isOther] at declared
  exact (Option.some.inj declared).symm

private theorem not_mem_portlessEdges_of_mem_edgesThroughPort (coherent : workflow.Coherent)
    {port : PortId}
    (throughPort : edge ∈ workflow.edgesThroughPort port) : edge ∉ workflow.portlessEdges node := by
  intro portless
  obtain ⟨_, entry, _, found, named⟩ := (mem_edgesThroughPort coherent).mp throughPort
  obtain ⟨_, again, _, foundAgain, namesNone, _⟩ := (mem_portlessEdges coherent).mp portless
  cases found.symm.trans foundAgain
  rw [namesNone] at named
  cases named

private theorem nodup_outgoing (loaded : load document = .ok workflow) (node : NodeId) :
    (workflow.outgoing node).Nodup := by
  have coherent := coherent_of_load loaded
  rw [outgoing, List.nodup_append']
  refine ⟨List.nodup_flatMap.mpr ⟨fun port _ => nodup_edgesThroughPort coherent port, ?_⟩,
    nodup_portlessEdges coherent node, ?_⟩
  · refine (nodup_portsOf loaded node).imp ?_
    intro port other different edge throughPort throughOther
    exact different (eq_of_mem_edgesThroughPort coherent throughPort throughOther)
  · intro edge throughPorts portless
    obtain ⟨port, _, throughPort⟩ := List.mem_flatMap.mp throughPorts
    exact not_mem_portlessEdges_of_mem_edgesThroughPort coherent throughPort portless

/-! ### The right node -/

/-- An edge that resolves to a node as its source leaves that node, and no other one. -/
theorem mem_outgoing_iff (coherent : workflow.Coherent) (complete : workflow.Complete)
    (resolves : workflow.resolveEdge edge = .ok ⟨some leaving, target⟩)
    (owned : leaving.owner = .node owner) : edge ∈ workflow.outgoing node ↔ node = owner := by
  constructor
  · intro isOutgoing
    rcases owner_of_mem_outgoing coherent isOutgoing resolves with ofNode | isEntry
    · rw [owned] at ofNode
      cases ofNode
      rfl
    · obtain ⟨_, trigger, _, _, isTrigger⟩ :=
        lookupTrigger?_of_mem_entryEdges coherent isEntry resolves
      rw [isTrigger] at owned
      cases owned
  · rintro rfl
    exact mem_outgoing_of_resolveEdge coherent complete resolves owned

private theorem links_iff_lookupNode? (coherent : workflow.Coherent) :
    workflow.Links edge node target ↔
      ∃ entry, workflow.edge? edge = some entry ∧
        workflow.lookupNode? entry.sourceNode = some node ∧
          workflow.lookupNode? entry.targetNode = some target := by
  constructor
  · rintro ⟨entry, source, destination, found, isSource, isTarget, ofSource, ofTarget⟩
    refine ⟨entry, found, ?_, ?_⟩
    · rw [ofSource]
      exact coherent.nodeDeclared isSource
    · rw [ofTarget]
      exact coherent.nodeDeclared isTarget
  · rintro ⟨entry, found, sourceDeclared, targetDeclared⟩
    obtain ⟨source, isSource, ofSource⟩ := coherent.nodeStored sourceDeclared
    obtain ⟨destination, isTarget, ofTarget⟩ := coherent.nodeStored targetDeclared
    exact ⟨entry, source, destination, found, isSource, isTarget, ofSource.symm, ofTarget.symm⟩

namespace Written

variable (written : workflow.Written document)
include written

theorem nodeOf?_eq_some (id : String) (node : NodeId) :
    document.nodeOf? id = some node ↔
      ∃ entry, document.nodes[node.number]? = some entry ∧ entry.id = id := by
  rw [← written.findNode?_eq]
  exact written.findNode?_eq_some id node

/-- A link from one node to another is an edge between their ids, as they are written. -/
theorem hasLink_iff_exists_entry :
    workflow.hasLink node target = true ↔
      ∃ entry ∈ document.edges, document.nodeOf? entry.sourceNode = some node ∧
        document.nodeOf? entry.targetNode = some target := by
  simp only [hasLink_iff, links_iff_lookupNode? written.coherent]
  constructor
  · rintro ⟨edge, stored, found, isSource, isTarget⟩
    obtain ⟨entry, inside, reads⟩ :=
      exists_partner written.edges (Arena.mem_toList.mpr ⟨edge, found⟩)
    rw [written.lookupNode?_eq reads.sourceNode] at isSource
    rw [written.lookupNode?_eq reads.targetNode] at isTarget
    exact ⟨entry, inside, isSource, isTarget⟩
  · rintro ⟨entry, inside, isSource, isTarget⟩
    obtain ⟨stored, isStored, reads⟩ := exists_partner written.edges.flip inside
    obtain ⟨edge, found⟩ := Arena.mem_toList.mp isStored
    rw [← written.lookupNode?_eq reads.sourceNode] at isSource
    rw [← written.lookupNode?_eq reads.targetNode] at isTarget
    exact ⟨edge, stored, found, isSource, isTarget⟩

end Written

end Workflow

/-- The edges that are found to leave a node by raw ids agree with what edges resolve to. Among
the edges that resolve to a node as their source, each is found once with that node and with no
other one, and two nodes are linked exactly when an edge has their ids as its ends. -/
theorem outgoing_agrees_with_resolveEdge {document : Document} {workflow : Workflow}
    (loaded : Workflow.load document = .ok workflow) :
    (∀ node, (workflow.outgoing node).Nodup) ∧
      (∀ node edge leaving target, workflow.resolveEdge edge = .ok ⟨some leaving, target⟩ →
        leaving.owner = .node node → edge ∈ workflow.outgoing node) ∧
      (∀ node edge, edge ∈ workflow.outgoing node → ∀ leaving target owner,
        workflow.resolveEdge edge = .ok ⟨some leaving, target⟩ →
          leaving.owner = .node owner → owner = node) ∧
      (∀ node target, workflow.hasLink node target = true ↔
        ∃ source destination, document.nodes[node.number]? = some source ∧
          document.nodes[target.number]? = some destination ∧
            ∃ entry ∈ document.edges,
              entry.sourceNode = source.id ∧ entry.targetNode = destination.id) ∧
      ∀ edge leaving target owner, workflow.resolveEdge edge = .ok ⟨some leaving, target⟩ →
        leaving.owner = .node owner → ∃! node, edge ∈ workflow.outgoing node := by
  have written := Workflow.written_of_load loaded
  have coherent := written.coherent
  have complete := Workflow.complete_of_load loaded
  refine ⟨Workflow.nodup_outgoing loaded, ?_, ?_, ?_, ?_⟩
  · intro node edge leaving target resolves owned
    exact Workflow.mem_outgoing_of_resolveEdge coherent complete resolves owned
  · intro node edge isOutgoing leaving target owner resolves owned
    exact ((Workflow.mem_outgoing_iff coherent complete resolves owned).mp isOutgoing).symm
  · intro node target
    rw [written.hasLink_iff_exists_entry]
    simp only [written.nodeOf?_eq_some]
    constructor
    · rintro ⟨entry, inside, ⟨source, isSource, ofSource⟩, destination, isTarget, ofTarget⟩
      exact ⟨source, destination, isSource, isTarget, entry, inside, ofSource.symm, ofTarget.symm⟩
    · rintro ⟨source, destination, isSource, isTarget, entry, inside, ofSource, ofTarget⟩
      exact ⟨entry, inside, ⟨source, isSource, ofSource.symm⟩, destination, isTarget, ofTarget.symm⟩
  · intro edge leaving target owner resolves owned
    refine ⟨owner, Workflow.mem_outgoing_of_resolveEdge coherent complete resolves owned, ?_⟩
    intro node isOutgoing
    exact (Workflow.mem_outgoing_iff coherent complete resolves owned).mp isOutgoing

/-- Two nodes whose ports go by each other's ids. One edge leaves the first node through its
default port, one through its other port and one through no port; an edge of the second node
names a port of the first one and dangles. -/
def crossedPorts : Document :=
  { entrypoint := some "entry"
    nodes :=
      [{ id := "a", ports := [{ id := "b", name := "on" }, { id := "out", name := "out" }],
          defaultPort := some "b" },
        { id := "b", ports := [{ id := "a", name := "back" }] }]
    edges :=
      [{ id := "first", sourceNode := "a", sourcePort := some "b", targetNode := "b" },
        { id := "stray", sourceNode := "b", sourcePort := some "out", targetNode := "a" },
        { id := "second", sourceNode := "a", sourcePort := some "out", targetNode := "b" },
        { id := "third", sourceNode := "a", targetNode := "b" },
        { id := "back", sourceNode := "b", sourcePort := some "a", targetNode := "a" }] }

/-- The stray edge is found with the first node, whose port it names, but it does not resolve;
all others are found with their own nodes alone. -/
theorem outgoing_agrees_with_resolveEdge_crossedPorts :
    ∃ workflow, Workflow.load crossedPorts = .ok workflow ∧
      workflow.outgoing ⟨0⟩ = [⟨0⟩, ⟨1⟩, ⟨2⟩, ⟨3⟩] ∧
      workflow.resolveEdge ⟨0⟩ = .ok ⟨some (.node ⟨0⟩), ⟨1⟩⟩ ∧
      workflow.resolveEdge ⟨1⟩ = .error .unknownSourcePort ∧
      workflow.resolveEdge ⟨4⟩ = .ok ⟨some (.port ⟨1⟩ ⟨2⟩), ⟨0⟩⟩ ∧
      (∃! node, ⟨0⟩ ∈ workflow.outgoing node) ∧ (∃! node, ⟨4⟩ ∈ workflow.outgoing node) ∧
      ⟨4⟩ ∈ workflow.outgoing ⟨1⟩ ∧ (workflow.outgoing ⟨1⟩).Nodup ∧
      workflow.hasLink ⟨1⟩ ⟨0⟩ = true := by
  have evaluated : ((Workflow.load crossedPorts).toOption.map fun workflow =>
      (workflow.outgoing ⟨0⟩, workflow.resolveEdge ⟨0⟩, workflow.resolveEdge ⟨1⟩,
        workflow.resolveEdge ⟨4⟩)) =
      some ([⟨0⟩, ⟨1⟩, ⟨2⟩, ⟨3⟩], .ok ⟨some (.node ⟨0⟩), ⟨1⟩⟩, .error .unknownSourcePort,
        .ok ⟨some (.port ⟨1⟩ ⟨2⟩), ⟨0⟩⟩) := by
    decide +kernel
  obtain ⟨workflow, loaded, views⟩ := Workflow.exists_load_of_map_toOption evaluated
  simp only [Prod.mk.injEq] at views
  obtain ⟨leaves, first, stray, back⟩ := views
  obtain ⟨distinct, found, _, linked, single⟩ := outgoing_agrees_with_resolveEdge loaded
  have isLinked : workflow.hasLink ⟨1⟩ ⟨0⟩ = true :=
    (linked ⟨1⟩ ⟨0⟩).mpr ⟨_, _, rfl, rfl, _, List.mem_cons_of_mem _ List.mem_cons_self, rfl, rfl⟩
  exact ⟨workflow, loaded, leaves, first, stray, back, single _ _ _ _ first rfl,
    single _ _ _ _ back rfl, found _ _ _ _ back rfl, distinct ⟨1⟩, isLinked⟩

end FlowGraph
