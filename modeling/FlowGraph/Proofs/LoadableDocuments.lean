import FlowGraph.Proofs.EntryOutcomes

/-!
The documents that load. A document is accepted exactly when its ids are distinct, each default
port is one of its node's own, and its entries and texts fit. What is refused otherwise is
refused entry by entry.
-/

namespace FlowGraph

/-! ### Room in the arenas -/

namespace Workflow

variable {workflow next : Workflow} {registry : Registry}

theorem roomForAll_triggers {entries : List TriggerEntry}
    (room : registry.triggers.length + entries.length ≤ EntryKind.trigger.capacity) :
    RoomForAll Registry.takeTrigger triggerRoom registry entries := by
  induction entries generalizing registry with
  | nil => trivial
  | cons entry rest ih =>
      rw [List.length_cons] at room
      refine ⟨by rw [triggerRoom]; omega, ih ?_⟩
      rw [Registry.takeTrigger]
      split
      · dsimp only
        omega
      · simp only [List.length_append, List.length_singleton]
        omega

theorem roomForAll_nodes {entries : List NodeEntry}
    (room : registry.nodes.length + entries.length ≤ EntryKind.node.capacity)
    (portRoom : registry.ports.length + (entries.flatMap NodeEntry.ports).length ≤
      EntryKind.port.capacity) : RoomForAll Registry.takeNode nodeRoom registry entries := by
  induction entries generalizing registry with
  | nil => trivial
  | cons entry rest ih =>
      rw [List.length_cons] at room
      rw [List.flatMap_cons, List.length_append] at portRoom
      obtain ⟨nodes, ports⟩ := registry.length_takeNode_le entry
      exact ⟨⟨by omega, by omega⟩, ih (by omega) (by omega)⟩

/-! ### Edges -/

end Workflow

def EdgeEntry.identTexts (entry : EdgeEntry) : List String :=
  [entry.id] ++ ([entry.sourceNode] ++ (entry.sourcePort.toList ++
    ([entry.targetNode] ++ entry.targetPort.toList)))

namespace Workflow

variable {workflow next : Workflow}

private theorem took_internIdent? {id : Option String} {ident : Option IdentId}
    (interned : workflow.internIdent? id = (next, .ok ident)) :
    Took workflow id.toList [] next := by
  cases id with
  | none =>
      cases interned
      exact ⟨rfl, rfl⟩
  | some id =>
      rcases stored : workflow.internIdent id with ⟨known, error | ident⟩
      · simp only [internIdent?, stored] at interned
        cases interned
      · simp only [internIdent?, stored] at interned
        cases interned
        exact took_internIdent stored

theorem TakesTexts.internIdent? {id : Option String} {ids names : List String}
    (takes : workflow.TakesTexts (id.toList ++ ids) names) :
    ∃ known ident, workflow.internIdent? id = (known, .ok ident) ∧
      known.TakesTexts ids names := by
  cases id with
  | none => exact ⟨workflow, none, rfl, takes⟩
  | some id =>
      obtain ⟨known, ident, interned, rest⟩ := takes.internIdent
      exact ⟨known, some ident, by simp [Workflow.internIdent?, interned, Except.map], rest⟩

private theorem internEdge_eq_ok {entry : EdgeEntry} {edge : Edge}
    (interned : workflow.internEdge entry = (next, .ok edge)) :
    ∃ first second third fourth,
      workflow.internIdent entry.id = (first, .ok edge.ident) ∧
      first.internIdent entry.sourceNode = (second, .ok edge.sourceNode) ∧
      second.internIdent? entry.sourcePort = (third, .ok edge.sourcePort) ∧
      third.internIdent entry.targetNode = (fourth, .ok edge.targetNode) ∧
      fourth.internIdent? entry.targetPort = (next, .ok edge.targetPort) := by
  unfold internEdge at interned
  rcases ofEdge : workflow.internIdent entry.id with ⟨first, error | ident⟩
  · simp [ofEdge] at interned
  rcases ofSource : first.internIdent entry.sourceNode with ⟨second, error | sourceNode⟩
  · simp [ofEdge, ofSource] at interned
  rcases ofSourcePort : second.internIdent? entry.sourcePort with ⟨third, error | sourcePort⟩
  · simp [ofEdge, ofSource, ofSourcePort] at interned
  rcases ofTarget : third.internIdent entry.targetNode with ⟨fourth, error | targetNode⟩
  · simp [ofEdge, ofSource, ofSourcePort, ofTarget] at interned
  rcases ofTargetPort : fourth.internIdent? entry.targetPort with ⟨fifth, error | targetPort⟩
  · simp [ofEdge, ofSource, ofSourcePort, ofTarget, ofTargetPort] at interned
  simp only [ofEdge, ofSource, ofSourcePort, ofTarget, ofTargetPort, Prod.mk.injEq,
    Except.ok.injEq] at interned
  obtain ⟨rfl, rfl⟩ := interned
  exact ⟨first, second, third, fourth, rfl, ofSource, ofSourcePort, ofTarget, ofTargetPort⟩

private theorem took_internEdge {entry : EdgeEntry} {edge : Edge}
    (interned : workflow.internEdge entry = (next, .ok edge)) :
    Took workflow entry.identTexts [] next := by
  obtain ⟨first, second, third, fourth, ofEdge, ofSource, ofSourcePort, ofTarget, ofTargetPort⟩ :=
    internEdge_eq_ok interned
  exact (took_internIdent ofEdge).trans ((took_internIdent ofSource).trans
    ((took_internIdent? ofSourcePort).trans ((took_internIdent ofTarget).trans
      (took_internIdent? ofTargetPort))))

theorem TakesTexts.internEdge {entry : EdgeEntry}
    (takes : workflow.TakesTexts entry.identTexts []) :
    ∃ interned edge, workflow.internEdge entry = (interned, .ok edge) := by
  obtain ⟨first, ident, ofEdge, takes⟩ := takes.internIdent
  obtain ⟨second, sourceNode, ofSource, takes⟩ := takes.internIdent
  obtain ⟨third, sourcePort, ofSourcePort, takes⟩ := takes.internIdent?
  obtain ⟨fourth, targetNode, ofTarget, takes⟩ := takes.internIdent
  rw [← List.append_nil entry.targetPort.toList] at takes
  obtain ⟨fifth, targetPort, ofTargetPort, _⟩ := takes.internIdent?
  refine ⟨fifth, ⟨ident, sourceNode, sourcePort, targetNode, targetPort⟩, ?_⟩
  simp only [Workflow.internEdge, ofEdge, ofSource, ofSourcePort, ofTarget, ofTargetPort]

private theorem took_addEdge {entry : EdgeEntry} (coherent : workflow.Coherent)
    (added : workflow.addEdge entry = .ok next) :
    Took workflow entry.identTexts [] next ∧ next.edges.size = workflow.edges.size + 1 ∧
      workflow.edges.size < EntryKind.edge.capacity := by
  unfold addEdge at added
  rcases interned : workflow.internEdge entry with ⟨known, error | edge⟩
  · rw [interned] at added
    cases added
  · rw [interned] at added
    dsimp only at added
    split at added
    · cases added
    · rename_i room
      cases added
      have sameEdges := (internEdge_spec coherent interned).1.edges
      have took := took_internEdge interned
      rw [sameEdges] at room
      exact ⟨⟨took.ids, took.names⟩, by rw [Arena.size_push, sameEdges], Nat.lt_of_not_le room⟩

private theorem exists_addEdge_of_takesTexts {entry : EdgeEntry} (coherent : workflow.Coherent)
    (takes : workflow.TakesTexts entry.identTexts [])
    (room : workflow.edges.size < EntryKind.edge.capacity) :
    ∃ next, workflow.addEdge entry = .ok next := by
  obtain ⟨known, edge, interned⟩ := takes.internEdge
  have sameEdges := (internEdge_spec coherent interned).1.edges
  refine ⟨{ known with edges := known.edges.push edge }, ?_⟩
  rw [addEdge, interned]
  dsimp only
  rw [if_neg (by rw [sameEdges]; omega)]

theorem exists_foldlM_addEdge_iff {entries : List EdgeEntry} (coherent : workflow.Coherent) :
    (∃ next, entries.foldlM addEdge workflow = .ok next) ↔
      (∃ idents, workflow.idents.internAll (entries.flatMap EdgeEntry.identTexts) = some idents) ∧
        workflow.edges.size + entries.length ≤ EntryKind.edge.capacity := by
  induction entries generalizing workflow with
  | nil => exact iff_of_true ⟨_, rfl⟩ ⟨⟨_, rfl⟩, Nat.le_pred_of_lt coherent.edgesFit⟩
  | cons entry rest ih =>
      rw [List.flatMap_cons, List.length_cons]
      constructor
      · rintro ⟨next, added⟩
        rw [List.foldlM_cons] at added
        cases first : workflow.addEdge entry with
        | error error =>
            rw [first] at added
            cases added
        | ok known =>
            rw [first] at added
            obtain ⟨took, oneMore, _⟩ := took_addEdge coherent first
            obtain ⟨⟨idents, ofRest⟩, room⟩ :=
              (ih (addsEdges_addEdge coherent first).coherent).mp ⟨next, added⟩
            refine ⟨⟨idents, Interner.internAll_append_eq_some.mpr ⟨_, took.ids, ofRest⟩⟩, ?_⟩
            omega
      · rintro ⟨⟨idents, interned⟩, room⟩
        obtain ⟨middle, ofFirst, ofRest⟩ := Interner.internAll_append_eq_some.mp interned
        obtain ⟨known, first⟩ := exists_addEdge_of_takesTexts coherent
          ⟨⟨middle, ofFirst⟩, _, rfl⟩ (by omega)
        obtain ⟨took, oneMore, _⟩ := took_addEdge coherent first
        cases took.ids.symm.trans ofFirst
        obtain ⟨next, added⟩ := (ih (addsEdges_addEdge coherent first).coherent).mpr
          ⟨⟨idents, ofRest⟩, by omega⟩
        refine ⟨next, ?_⟩
        rw [List.foldlM_cons, first]
        exact added

end Workflow

/-! ### Whole documents -/

namespace Document

def identTexts (document : Document) : List String :=
  document.entrypoint.toList ++ (document.triggers.map TriggerEntry.id ++
    (document.nodes.flatMap NodeEntry.identTexts ++
      document.edges.flatMap EdgeEntry.identTexts))

def nameTexts (document : Document) : List String :=
  document.triggers.map (fun entry => entry.label.getD entry.id) ++
    document.nodes.flatMap NodeEntry.nameTexts

private theorem map_snd_portEntries (document : Document) :
    document.portEntries.map Prod.snd = document.nodes.flatMap NodeEntry.ports := by
  have placed : (document.nodes.zipIdx.map Prod.fst).flatMap NodeEntry.ports =
      document.nodes.flatMap NodeEntry.ports := by rw [List.zipIdx_map_fst]
  rw [← placed, List.flatMap_map, portEntries, List.map_flatMap]
  simp [Function.comp_def]

theorem portIds_takeTriggers (document : Document) :
    (Registry.takeAll Registry.takeTrigger {} document.triggers).1.portIds = [] := by
  rw [Registry.portIds, (Registry.takeTriggers_keeps {} document.triggers).2]
  rfl

theorem roomForAll_triggers (document : Document) (triggersFit : document.triggers.length ≤ 255) :
    Workflow.RoomForAll Registry.takeTrigger Workflow.triggerRoom {} document.triggers :=
  Workflow.roomForAll_triggers ((Nat.zero_add _).trans_le triggersFit)

theorem roomForAll_nodes (document : Document) (nodesFit : document.nodes.length ≤ 65535)
    (portsFit : (document.nodes.flatMap NodeEntry.ports).length ≤ 65535) :
    Workflow.RoomForAll Registry.takeNode Workflow.nodeRoom
      (Registry.takeAll Registry.takeTrigger {} document.triggers).1 document.nodes := by
  obtain ⟨noNodes, noPorts⟩ := Registry.takeTriggers_keeps {} document.triggers
  apply Workflow.roomForAll_nodes
  · rw [noNodes]
    exact (Nat.zero_add _).trans_le nodesFit
  · rw [noPorts]
    exact (Nat.zero_add _).trans_le portsFit

/-- A document whose ids are distinct, whose default ports are the nodes' own, and whose
entries and texts fit. -/
structure Loadable (document : Document) : Prop where
  ids : (document.triggers.map TriggerEntry.id ++ document.nodes.map NodeEntry.id).Nodup
  portIds : (document.nodes.flatMap fun entry => entry.ports.map PortEntry.id).Nodup
  defaultPorts : ∀ entry ∈ document.nodes, ∀ id, entry.defaultPort = some id →
    id ∈ entry.ports.map PortEntry.id
  triggersFit : document.triggers.length ≤ 255
  nodesFit : document.nodes.length ≤ 65535
  portsFit : (document.nodes.flatMap NodeEntry.ports).length ≤ 65535
  edgesFit : document.edges.length < 2 ^ 32
  identsFit : Fits (2 ^ 32) (2 ^ 64) document.identTexts
  namesFit : Fits (2 ^ 16) (2 ^ 32) document.nameTexts

end Document

namespace Workflow

variable {document : Document} {workflow : Workflow}

/-- How a document is accepted: entrypoint, triggers, nodes and edges in turn. -/
theorem load_eq_ok_iff_stages :
    load document = .ok workflow ↔ ∃ start known base,
      ofEntrypoint document.entrypoint = .ok start ∧
      addAll addTrigger start document.triggers = (known, []) ∧
      addAll addNode known document.nodes = (base, []) ∧
      document.edges.foldlM addEdge base = .ok workflow := by
  unfold load
  cases ofEntrypoint document.entrypoint with
  | error error => simp
  | ok start =>
      dsimp only
      rcases ofTriggers : addAll addTrigger start document.triggers with ⟨known, triggerErrors⟩
      rcases ofNodes : addAll addNode known document.nodes with ⟨base, nodeErrors⟩
      constructor
      · intro accepted
        dsimp only at accepted
        cases ofEdges : document.edges.foldlM addEdge base with
        | error error =>
            rw [ofEdges] at accepted
            cases accepted
        | ok loaded =>
            rw [ofEdges] at accepted
            dsimp only at accepted
            split at accepted
            · rename_i noErrors
              cases accepted
              obtain ⟨rfl, rfl⟩ := List.append_eq_nil_iff.mp noErrors
              exact ⟨start, known, base, rfl, ofTriggers, ofNodes, ofEdges⟩
            · cases accepted
      · rintro ⟨_, _, _, ⟨rfl⟩, sameTriggers, sameNodes, sameEdges⟩
        cases ofTriggers.symm.trans sameTriggers
        cases ofNodes.symm.trans sameNodes
        simp only [sameEdges, List.append_nil]

theorem took_ofEntrypoint {entrypoint : Option String} {start : Workflow}
    (made : ofEntrypoint entrypoint = .ok start) :
    Took empty entrypoint.toList [] start ∧ start.Registers {} ∧ start.edges = .empty := by
  have only := ofEntrypoint_eq made
  refine ⟨?_, ?_, ?_⟩
  · cases entrypoint with
    | none =>
        cases made
        exact ⟨rfl, rfl⟩
    | some id =>
        unfold ofEntrypoint at made
        rcases interned : empty.internIdent id with ⟨known, error | ident⟩
        · simp only [interned] at made
          cases made
        · simp only [interned] at made
          cases made
          have took := took_internIdent interned
          exact ⟨took.ids, took.names⟩
  · have written := written_ofEntrypoint made
    refine ⟨written.coherent, written.names, written.triggersFit, written.triggerTable,
      ?_, ?_, ?_, nofun⟩
    iterate 3
      rw [only]
      exact .nil
  · rw [only]
    rfl

theorem exists_ofEntrypoint {entrypoint : Option String} {moreIds names : List String}
    (takes : empty.TakesTexts (entrypoint.toList ++ moreIds) names) :
    ∃ start, ofEntrypoint entrypoint = .ok start := by
  cases entrypoint with
  | none => exact ⟨_, rfl⟩
  | some id =>
      obtain ⟨known, ident, interned, _⟩ := takes.internIdent
      exact ⟨_, by rw [ofEntrypoint, interned]⟩

/-- The entries of a document are accepted by their ids if the ids are distinct and the default
ports are the nodes' own. -/
theorem accepted_iff :
    (Registry.takeAll Registry.takeTrigger {} document.triggers).2 = [] ∧
      (Registry.takeAll Registry.takeNode
        (Registry.takeAll Registry.takeTrigger {} document.triggers).1 document.nodes).2 = [] ↔
      (document.triggers.map TriggerEntry.id ++ document.nodes.map NodeEntry.id).Nodup ∧
        (document.nodes.flatMap fun entry => entry.ports.map PortEntry.id).Nodup ∧
          ∀ entry ∈ document.nodes, ∀ id, entry.defaultPort = some id →
            id ∈ entry.ports.map PortEntry.id := by
  have noIds : ({} : Registry).ids.Nodup := List.nodup_nil
  have ofTriggers : (Registry.takeAll Registry.takeTrigger {} document.triggers).2 = [] ↔
      (document.triggers.map TriggerEntry.id).Nodup := Registry.takeTriggers_eq_nil_iff noIds
  rw [ofTriggers]
  have ofNodes : (document.triggers.map TriggerEntry.id).Nodup → _ := fun distinct => by
    have registered := Registry.takeTriggers_fst (ofTriggers.mpr distinct)
    have idsAre : (Registry.takeAll Registry.takeTrigger {} document.triggers).1.ids =
        document.triggers.map TriggerEntry.id := by
      rw [registered]
      exact List.append_nil _
    have noPorts := document.portIds_takeTriggers
    have accepts : (Registry.takeAll Registry.takeNode _ document.nodes).2 = [] ↔ _ :=
      Registry.takeNodes_eq_nil_iff (by rwa [idsAre]) (by rw [noPorts]; exact List.nodup_nil)
    rw [idsAre, noPorts, List.nil_append] at accepts
    exact accepts
  simp only [Registry.checkDefault_eq_ok_iff] at ofNodes
  constructor
  · rintro ⟨distinct, accepted⟩
    exact (ofNodes distinct).mp accepted
  · rintro ⟨distinct, rest⟩
    have triggersDistinct := (List.nodup_append.mp distinct).1
    exact ⟨triggersDistinct, (ofNodes triggersDistinct).mpr ⟨distinct, rest⟩⟩

/-- An accepted document is loadable: its texts have been interned in their order, and its entries
are stored. -/
theorem loadable_of_load (loaded : load document = .ok workflow) : document.Loadable := by
  obtain ⟨start, known, base, made, ofTriggers, ofNodes, ofEdges⟩ :=
    load_eq_ok_iff_stages.mp loaded
  obtain ⟨tookStart, registersStart, _⟩ := took_ofEntrypoint made
  obtain ⟨tookTriggers, registersKnown, triggersAccepted⟩ :=
    triggerLaws.took_addAll registersStart ofTriggers
  obtain ⟨tookNodes, registersBase, nodesAccepted⟩ :=
    nodeLaws.took_addAll registersKnown ofNodes
  obtain ⟨⟨idents, ofEdgeIds⟩, _⟩ :=
    (exists_foldlM_addEdge_iff registersBase.coherent).mp ⟨workflow, ofEdges⟩
  obtain ⟨ids, portIds, defaultPorts⟩ := accepted_iff.mp ⟨triggersAccepted, nodesAccepted⟩
  have written := written_of_load loaded
  have took := tookStart.trans (tookTriggers.trans tookNodes)
  refine ⟨ids, portIds, defaultPorts, ?_, ?_, ?_, ?_, ?_, ?_⟩
  · rw [written.triggers.length_eq]
    exact Nat.le_of_lt_succ written.triggersFit
  · rw [← document.nodes.length_zipIdx, written.nodes.length_eq]
    exact Nat.le_of_lt_succ written.coherent.nodesFit
  · rw [← document.map_snd_portEntries, List.length_map, written.ports.length_eq]
    exact Nat.le_of_lt_succ written.coherent.portsFit
  · rw [written.edges.length_eq]
    exact written.coherent.edgesFit
  · refine (Interner.exists_internAll_empty_iff (by decide) _).mp ⟨idents, ?_⟩
    rw [Document.identTexts, List.map_eq_flatMap, ← List.append_assoc, ← List.append_assoc,
      List.append_assoc document.entrypoint.toList]
    exact Interner.internAll_append_eq_some.mpr ⟨_, took.ids, ofEdgeIds⟩
  · refine (Interner.exists_internAll_empty_iff (by decide) _).mp ⟨base.names, ?_⟩
    rw [Document.nameTexts, List.map_eq_flatMap]
    exact took.names

private theorem exists_load_of_loadable (loadable : document.Loadable) :
    ∃ workflow, load document = .ok workflow := by
  have accepted := accepted_iff.mpr ⟨loadable.ids, loadable.portIds, loadable.defaultPorts⟩
  have takes : empty.TakesTexts document.identTexts ([] ++ (document.nameTexts ++ [])) := by
    rw [List.append_nil]
    exact ⟨(Interner.exists_internAll_empty_iff (by decide) _).mpr loadable.identsFit,
      (Interner.exists_internAll_empty_iff (by decide) _).mpr loadable.namesFit⟩
  rw [Document.identTexts, Document.nameTexts, List.map_eq_flatMap, List.map_eq_flatMap,
    List.append_assoc] at takes
  -- Each stage takes the texts in front, and those behind are left for the next one.
  obtain ⟨start, made⟩ := exists_ofEntrypoint takes
  obtain ⟨tookStart, registersStart, _⟩ := took_ofEntrypoint made
  have takesTriggers := tookStart.rest takes
  obtain ⟨known, ofTriggers⟩ := triggerLaws.exists_addAll registersStart takesTriggers.front
    (document.roomForAll_triggers loadable.triggersFit) accepted.1
  obtain ⟨tookTriggers, registersKnown, _⟩ := triggerLaws.took_addAll registersStart ofTriggers
  have takesNodes := tookTriggers.rest takesTriggers
  obtain ⟨base, ofNodes⟩ := nodeLaws.exists_addAll registersKnown takesNodes.front
    (document.roomForAll_nodes loadable.nodesFit loadable.portsFit) accepted.2
  obtain ⟨tookNodes, registersBase, _⟩ := nodeLaws.took_addAll registersKnown ofNodes
  have baseEdges : base.edges = .empty := by
    have baseLoaded : load { document with edges := [] } = .ok base :=
      load_eq_ok_iff_stages.mpr ⟨start, known, base, made, ofTriggers, ofNodes, rfl⟩
    exact (coherent_base baseLoaded).2
  have edgeRoom : base.edges.size + document.edges.length ≤ EntryKind.edge.capacity := by
    rw [baseEdges]
    exact (Nat.zero_add _).trans_le (Nat.le_pred_of_lt loadable.edgesFit)
  obtain ⟨workflow, ofEdges⟩ := (exists_foldlM_addEdge_iff registersBase.coherent).mpr
    ⟨(tookNodes.rest takesNodes).ids, edgeRoom⟩
  exact ⟨workflow,
    load_eq_ok_iff_stages.mpr ⟨start, known, base, made, ofTriggers, ofNodes, ofEdges⟩⟩

theorem exists_load_iff : (∃ workflow, load document = .ok workflow) ↔ document.Loadable :=
  ⟨fun ⟨_, loaded⟩ => loadable_of_load loaded, exists_load_of_loadable⟩

end Workflow

end FlowGraph
