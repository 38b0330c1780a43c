import FlowGraph.Proofs.InternedTexts
import FlowGraph.Proofs.ReadBack
import FlowGraph.Proofs.Registry

/-!
What a workflow in the making has registered, in raw ids. Whether an entry is refused for its
ids depends on these alone: a table of idents and the list of ids that were entered into it
give the same answers. This holds of every entry for which there is room, and also behind
entries that were refused halfway.
-/

namespace FlowGraph

namespace NodeEntry

def identTexts (entry : NodeEntry) : List String := entry.id :: entry.ports.map PortEntry.id

def nameTexts (entry : NodeEntry) : List String :=
  entry.label.getD entry.id :: entry.ports.map PortEntry.name

end NodeEntry

namespace Workflow

variable {workflow next : Workflow} {registry : Registry}

/-! ### Registering in a workflow -/

structure Registers (workflow : Workflow) (registry : Registry) : Prop where
  coherent : workflow.Coherent
  names : workflow.names.Lawful
  triggersFit : workflow.triggers.size < UInt8.size
  triggerTable : ∀ ident trigger, workflow.lookupTrigger? ident = some trigger ↔
    ∃ stored, workflow.trigger? trigger = some stored ∧ stored.ident = ident
  triggers : List.Forall₂ (fun id ident => workflow.identText? ident = some id)
    registry.triggers (workflow.triggers.toList.map Trigger.ident)
  nodes : List.Forall₂ (fun id ident => workflow.identText? ident = some id)
    registry.nodes (workflow.nodes.toList.map Node.ident)
  ports : List.Forall₂ (fun written stored => stored.node = written.1 ∧
    workflow.identText? stored.ident = some written.2) registry.ports workflow.ports.toList
  owners : ∀ written ∈ registry.ports, written.1.number < registry.nodes.length

private theorem isSome_lookup_iff {Id Value : Type} [ArenaId Id] [LawfulArenaId Id]
    {arena : Arena Id Value} {identOf : Value → IdentId} {lookup : IdentId → Option Id}
    (coherent : workflow.Coherent)
    (declared : ∀ ident id, lookup ident = some id ↔
      ∃ value, arena.get? id = some value ∧ identOf value = ident)
    {ids : List String} (related : List.Forall₂
      (fun id ident => workflow.identText? ident = some id) ids (arena.toList.map identOf))
    {ident : IdentId} {id : String} (isText : workflow.identText? ident = some id) :
    (lookup ident).isSome = true ↔ id ∈ ids := by
  rw [Option.isSome_iff_exists]
  constructor
  · rintro ⟨key, found⟩
    obtain ⟨value, stored, rfl⟩ := (declared ident key).mp found
    have inside := List.mem_map_of_mem (f := identOf) (Arena.mem_toList.mpr ⟨key, stored⟩)
    obtain ⟨other, present, ofOther⟩ := exists_partner related inside
    cases isText.symm.trans ofOther
    exact present
  · intro present
    obtain ⟨other, inside, ofOther⟩ := exists_partner related.flip present
    obtain ⟨value, stored, rfl⟩ := List.mem_map.mp inside
    obtain ⟨key, found⟩ := Arena.mem_toList.mp stored
    have same := coherent.ident_eq_of_identText? ofOther isText
    exact ⟨key, (declared ident key).mpr ⟨value, found, same⟩⟩

namespace Registers

private theorem declares_iff (registers : workflow.Registers registry) {ident : IdentId}
    {id : String} (isText : workflow.identText? ident = some id) :
    workflow.declares ident = true ↔ id ∈ registry.ids := by
  have nodeTable : ∀ ident node, workflow.lookupNode? ident = some node ↔
      ∃ stored, workflow.node? node = some stored ∧ stored.ident = ident := by
    intro ident node
    constructor
    · exact registers.coherent.nodeStored
    · rintro ⟨stored, isStored, rfl⟩
      exact registers.coherent.nodeDeclared isStored
  rw [declares, Bool.or_eq_true, Registry.ids, List.mem_append,
    isSome_lookup_iff registers.coherent registers.triggerTable registers.triggers isText,
    isSome_lookup_iff registers.coherent nodeTable registers.nodes isText]

private theorem lookupPort?_iff (registers : workflow.Registers registry) {ident : IdentId}
    {id : String} (isText : workflow.identText? ident = some id) :
    (workflow.lookupPort? ident).isSome = true ↔ id ∈ registry.portIds := by
  have portTable : ∀ ident port, workflow.lookupPort? ident = some port ↔
      ∃ stored, workflow.port? port = some stored ∧ stored.ident = ident := by
    intro ident port
    constructor
    · exact registers.coherent.portStored
    · rintro ⟨stored, isStored, rfl⟩
      exact registers.coherent.portDeclared isStored
  have related : List.Forall₂ (fun id ident => workflow.identText? ident = some id)
      registry.portIds (workflow.ports.toList.map Port.ident) := by
    rw [Registry.portIds, List.forall₂_map_left_iff, List.forall₂_map_right_iff]
    exact registers.ports.imp fun _ _ => And.right
  exact isSome_lookup_iff registers.coherent portTable related isText

private theorem isSome_ownPort?_iff (registers : workflow.Registers registry) {node : NodeId}
    {id : String} : (workflow.ownPort? node id).isSome = true ↔ (node, id) ∈ registry.ports := by
  rw [Option.isSome_iff_exists]
  constructor
  · rintro ⟨port, own⟩
    obtain ⟨found, ofNode⟩ := Option.filter_eq_some_iff.mp own
    obtain ⟨ident, isIdent, declared⟩ := Option.bind_eq_some_iff.mp found
    obtain ⟨stored, isStored, rfl⟩ := registers.coherent.portStored declared
    obtain ⟨⟨other, text⟩, present, rfl, isText⟩ :=
      exists_partner registers.ports (Arena.mem_toList.mpr ⟨port, isStored⟩)
    rw [isStored, Option.any_some, beq_iff_eq] at ofNode
    cases ((ident?_eq_some registers.coherent).mp isIdent).symm.trans isText
    exact ofNode ▸ present
  · intro present
    obtain ⟨stored, inside, ofNode, isText⟩ := exists_partner registers.ports.flip present
    obtain ⟨port, isStored⟩ := Arena.mem_toList.mp inside
    refine ⟨port, Option.filter_eq_some_iff.mpr ⟨?_, ?_⟩⟩
    · exact Option.bind_eq_some_iff.mpr ⟨stored.ident,
        (ident?_eq_some registers.coherent).mpr isText, registers.coherent.portDeclared isStored⟩
    · rw [port?, isStored, Option.any_some, beq_iff_eq]
      exact ofNode

private theorem setTexts (registers : workflow.Registers registry) (coherent : next.Coherent)
    (names : next.names.Lawful) (grown : workflow.idents.Grown next.idents)
    (rest : next = { workflow with idents := next.idents, names := next.names }) :
    next.Registers registry where
  coherent := coherent
  names := names
  triggersFit := by
    rw [rest]
    exact registers.triggersFit
  triggerTable := by
    rw [rest]
    exact registers.triggerTable
  triggers := by
    have sameTriggers : next.triggers = workflow.triggers := by rw [rest]
    rw [sameTriggers]
    exact registers.triggers.imp fun _ _ => identText?_of_grown grown
  nodes := by
    have sameNodes : next.nodes = workflow.nodes := by rw [rest]
    rw [sameNodes]
    exact registers.nodes.imp fun _ _ => identText?_of_grown grown
  ports := by
    have samePorts : next.ports = workflow.ports := by rw [rest]
    rw [samePorts]
    exact registers.ports.imp fun _ _ => And.imp_right (identText?_of_grown grown)
  owners := registers.owners

theorem internIdent (registers : workflow.Registers registry) {id : String} {ident : IdentId}
    (interned : workflow.internIdent id = (next, .ok ident)) :
    next.Registers registry ∧ next.identText? ident = some id := by
  have interns := interns_internIdent interned
  refine ⟨registers.setTexts (interns.coherent registers.coherent) ?_ interns.grown ?_,
    identText?_internIdent registers.coherent interned⟩
  · rw [interns.rest]
    exact registers.names
  · rw [interns.rest]

theorem internName (registers : workflow.Registers registry) {text : String} {name : NameId}
    (named : workflow.internName text = (next, .ok name)) : next.Registers registry := by
  obtain ⟨keeps, _⟩ := keeps_internName named
  have grown := extends_internName named
  refine registers.setTexts (grown.coherent registers.coherent) (keeps.lawful registers.names)
    grown.grown ?_
  rw [internName_eq named]

theorem pushTrigger (registers : workflow.Registers registry) {trigger : Trigger} {id : String}
    (isText : workflow.identText? trigger.ident = some id) (isNew : id ∉ registry.ids)
    (room : registry.triggers.length < EntryKind.trigger.capacity) :
    (workflow.pushTrigger trigger).Registers
      { registry with triggers := registry.triggers ++ [id] } := by
  have notDeclared := mt (registers.declares_iff isText).mp isNew
  obtain ⟨noTrigger, noNode⟩ := lookup_eq_none_of_not_declares notDeclared
  have sameSize : registry.triggers.length = workflow.triggers.size := by
    have sameLength := registers.triggers.length_eq
    rwa [List.length_map] at sameLength
  refine ⟨(extends_pushTrigger (lt_size_of_identText? isText) noNode).coherent registers.coherent,
    registers.names, ?_,
    triggerTable_pushTrigger registers.triggersFit registers.triggerTable noTrigger, ?_,
    registers.nodes, registers.ports, registers.owners⟩
  · change (workflow.triggers.push trigger).size < UInt8.size
    rw [Arena.size_push, ← sameSize]
    exact Nat.succ_lt_succ room
  · have triggersAre : (workflow.pushTrigger trigger).triggers.toList =
        workflow.triggers.toList ++ [trigger] := Array.toList_push
    rw [triggersAre, List.map_append]
    exact List.rel_append registers.triggers (.cons isText .nil)

theorem pushNode (registers : workflow.Registers registry) {ident : IdentId} {id : String}
    (label : NameId) (isText : workflow.identText? ident = some id) (isNew : id ∉ registry.ids)
    (room : registry.nodes.length < EntryKind.node.capacity) :
    (workflow.pushNode ident label).Registers
      { registry with nodes := registry.nodes ++ [id] } := by
  have notDeclared := mt (registers.declares_iff isText).mp isNew
  obtain ⟨noTrigger, noNode⟩ := lookup_eq_none_of_not_declares notDeclared
  have sameSize : registry.nodes.length = workflow.nodes.size := by
    have sameLength := registers.nodes.length_eq
    rwa [List.length_map] at sameLength
  rw [sameSize] at room
  refine ⟨(extends_pushNode label (lt_size_of_identText? isText) noTrigger noNode room).coherent
    registers.coherent, registers.names, registers.triggersFit, registers.triggerTable,
    registers.triggers, ?_, registers.ports, ?_⟩
  · have nodesAre : (workflow.pushNode ident label).nodes.toList.map Node.ident =
        workflow.nodes.toList.map Node.ident ++ [ident] := by
      change (workflow.nodes.push _).toList.map Node.ident = _
      rw [Arena.toList, Arena.push, Array.toList_push, List.map_append]
      rfl
    rw [nodesAre]
    exact List.rel_append registers.nodes (.cons isText .nil)
  · intro written present
    rw [List.length_append]
    exact Nat.lt_add_right _ (registers.owners written present)

theorem pushPort (registers : workflow.Registers registry) {port : Port} {id : String}
    (isText : workflow.identText? port.ident = some id) (isNew : id ∉ registry.portIds)
    (ofNode : port.node.number < registry.nodes.length)
    (room : registry.ports.length < EntryKind.port.capacity) :
    (workflow.pushPort port).Registers
      { registry with ports := registry.ports ++ [(port.node, id)] } := by
  have noPort : workflow.lookupPort? port.ident = none :=
    Option.not_isSome_iff_eq_none.mp (mt (registers.lookupPort?_iff isText).mp isNew)
  have sameSize : registry.ports.length = workflow.ports.size := registers.ports.length_eq
  rw [sameSize] at room
  refine ⟨(extends_pushPort (lt_size_of_identText? isText) noPort room).coherent
    registers.coherent, registers.names, registers.triggersFit, registers.triggerTable,
    registers.triggers, registers.nodes, ?_, ?_⟩
  · have portsAre : (workflow.pushPort port).ports.toList = workflow.ports.toList ++ [port] :=
      Array.toList_push
    rw [portsAre]
    exact List.rel_append registers.ports (.cons ⟨rfl, isText⟩ .nil)
  · intro written present
    rcases List.mem_append.mp present with old | new
    · exact registers.owners written old
    · rw [List.mem_singleton.mp new]
      exact ofNode

theorem setPorts (registers : workflow.Registers registry) {id : NodeId} {ports : List PortId}
    {defaultPort : Option PortId} (coherent : (workflow.setPorts id ports defaultPort).Coherent) :
    (workflow.setPorts id ports defaultPort).Registers registry := by
  unfold Workflow.setPorts at coherent ⊢
  split at coherent
  · exact registers
  · rename_i node isNode
    refine ⟨coherent, registers.names, registers.triggersFit, registers.triggerTable,
      registers.triggers, ?_, registers.ports, registers.owners⟩
    have sameIdents : (workflow.nodes.set id
        { node with ports := ports, defaultPort := defaultPort }).toList.map Node.ident =
          workflow.nodes.toList.map Node.ident := Arena.map_toList_set isNode rfl
    dsimp only
    rw [sameIdents]
    exact registers.nodes

end Registers

/-! ### Room for texts -/

structure TakesTexts (workflow : Workflow) (ids names : List String) : Prop where
  ids : ∃ idents, workflow.idents.internAll ids = some idents
  names : ∃ others, workflow.names.internAll names = some others

theorem internIdent_eq_ok_iff {id : String} {ident : IdentId} :
    workflow.internIdent id = (next, .ok ident) ↔
      ∃ idents, workflow.idents.intern id = (idents, .ok ident.number) ∧
        next = { workflow with idents := idents } := by
  unfold internIdent
  rcases workflow.idents.intern id with ⟨idents, error | key⟩
  · simp [Except.mapError, Except.map]
  · cases ident
    simp [Except.mapError, Except.map, eq_comm, and_comm]

theorem internName_eq_ok_iff {text : String} {name : NameId} :
    workflow.internName text = (next, .ok name) ↔
      ∃ names, workflow.names.intern text = (names, .ok name.number) ∧
        next = { workflow with names := names } := by
  unfold internName
  rcases workflow.names.intern text with ⟨names, error | key⟩
  · simp [Except.mapError, Except.map]
  · cases name
    simp [Except.mapError, Except.map, eq_comm, and_comm]

theorem TakesTexts.internIdent {id : String} {ids names : List String}
    (takes : workflow.TakesTexts (id :: ids) names) :
    ∃ known ident, workflow.internIdent id = (known, .ok ident) ∧ known.TakesTexts ids names := by
  obtain ⟨⟨idents, ofIds⟩, others⟩ := takes
  obtain ⟨known, key, ofFirst, ofRest⟩ := Interner.internAll_cons_eq_some.mp ofIds
  exact ⟨{ workflow with idents := known }, ⟨key⟩,
    internIdent_eq_ok_iff.mpr ⟨known, ofFirst, rfl⟩, ⟨idents, ofRest⟩, others⟩

theorem TakesTexts.internName {text : String} {ids names : List String}
    (takes : workflow.TakesTexts ids (text :: names)) :
    ∃ labelled name, workflow.internName text = (labelled, .ok name) ∧
      labelled.TakesTexts ids names := by
  obtain ⟨others, ⟨all, ofNames⟩⟩ := takes
  obtain ⟨known, key, ofFirst, ofRest⟩ := Interner.internAll_cons_eq_some.mp ofNames
  exact ⟨{ workflow with names := known }, ⟨key⟩,
    internName_eq_ok_iff.mpr ⟨known, ofFirst, rfl⟩, others, ⟨all, ofRest⟩⟩

theorem TakesTexts.front {ids names moreIds moreNames : List String}
    (takes : workflow.TakesTexts (ids ++ moreIds) (names ++ moreNames)) :
    workflow.TakesTexts ids names := by
  obtain ⟨⟨idents, ofIds⟩, others, ofNames⟩ := takes
  obtain ⟨known, isKnown, _⟩ := Interner.internAll_append_eq_some.mp ofIds
  obtain ⟨labelled, isLabelled, _⟩ := Interner.internAll_append_eq_some.mp ofNames
  exact ⟨⟨known, isKnown⟩, labelled, isLabelled⟩

/-! ### Entries for which there is room -/

namespace Registers

theorem addTrigger (registers : workflow.Registers registry) {entry : TriggerEntry}
    (takes : workflow.TakesTexts [entry.id] [entry.label.getD entry.id])
    (room : registry.triggers.length < EntryKind.trigger.capacity) :
    (workflow.addTrigger entry).1.Registers (registry.takeTrigger entry).1 ∧
      (workflow.addTrigger entry).2 = (registry.takeTrigger entry).2 := by
  obtain ⟨known, ident, interned, takesName⟩ := takes.internIdent
  obtain ⟨registersKnown, isText⟩ := registers.internIdent interned
  have declared := registersKnown.declares_iff isText
  unfold Workflow.addTrigger Registry.takeTrigger
  simp only [interned]
  by_cases isKnown : entry.id ∈ registry.ids
  · rw [if_pos (declared.mpr isKnown), if_pos isKnown]
    exact ⟨registersKnown, rfl⟩
  · rw [if_neg (mt declared.mp isKnown), if_neg isKnown]
    obtain ⟨labelled, label, named, _⟩ := takesName.internName
    have registersLabelled := registersKnown.internName named
    have sameSize : registry.triggers.length = labelled.triggers.size := by
      have sameLength := registersLabelled.triggers.length_eq
      rwa [List.length_map] at sameLength
    simp only [named]
    rw [if_neg (by omega)]
    have stillText := identText?_of_grown (extends_internName named).grown isText
    exact ⟨registersLabelled.pushTrigger stillText isKnown room, rfl⟩

/-- The ports of a node are registered up to the first one whose id is taken. -/
theorem addPorts (registers : workflow.Registers registry) (node : NodeId)
    (ports : Array PortId) {entries : List PortEntry}
    (takes : workflow.TakesTexts (entries.map PortEntry.id) (entries.map PortEntry.name))
    (ofNode : node.number < registry.nodes.length)
    (room : registry.ports.length + entries.length ≤ EntryKind.port.capacity) :
    (workflow.addPorts node ports entries).1.Registers (registry.takePorts node entries).1 ∧
      (workflow.addPorts node ports entries).2.map (fun _ => ()) =
        (registry.takePorts node entries).2 := by
  induction entries generalizing workflow registry ports with
  | nil => exact ⟨registers, rfl⟩
  | cons entry rest ih =>
      obtain ⟨known, ident, interned, takesName⟩ := takes.internIdent
      obtain ⟨registersKnown, isText⟩ := registers.internIdent interned
      have declared := registersKnown.lookupPort?_iff isText
      rw [List.length_cons] at room
      unfold Workflow.addPorts Registry.takePorts addPort
      simp only [interned]
      by_cases isKnown : entry.id ∈ registry.portIds
      · rw [if_pos (declared.mpr isKnown), if_pos isKnown]
        exact ⟨registersKnown, rfl⟩
      · rw [if_neg (mt declared.mp isKnown), if_neg isKnown]
        obtain ⟨labelled, name, named, takesRest⟩ := takesName.internName
        have registersLabelled := registersKnown.internName named
        have sameSize : registry.ports.length = labelled.ports.size :=
          registersLabelled.ports.length_eq
        simp only [named]
        rw [if_neg (by omega)]
        have stillText := identText?_of_grown (extends_internName named).grown isText
        have pushed : (labelled.pushPort { ident := ident, node := node, name := name }).Registers
            { registry with ports := registry.ports ++ [(node, entry.id)] } :=
          registersLabelled.pushPort stillText isKnown ofNode (by omega)
        exact ih pushed _ ⟨takesRest.ids, takesRest.names⟩ ofNode (by simp; omega)

private theorem defaultPortFor_eq (registers : workflow.Registers registry) {node : NodeId}
    {entry : NodeEntry} (own : ∀ id, (node, id) ∈ registry.ports ↔
      id ∈ entry.ports.map PortEntry.id) :
    (workflow.defaultPortFor node entry).map (fun _ => ()) = Registry.checkDefault entry := by
  unfold defaultPortFor Registry.checkDefault
  cases entry.defaultPort with
  | none => rfl
  | some id =>
      dsimp only
      have isOwn := registers.isSome_ownPort?_iff.trans (own id)
      cases found : workflow.ownPort? node id with
      | none =>
          rw [found] at isOwn
          rw [if_neg (mt isOwn.mpr nofun)]
          rfl
      | some port =>
          rw [found] at isOwn
          rw [if_pos (isOwn.mp rfl)]
          rfl

private theorem nextNode_eq (registers : workflow.Registers registry) :
    workflow.nodes.nextId = ⟨registry.nodes.length⟩ := by
  have sameLength := registers.nodes.length_eq
  rw [List.length_map] at sameLength
  apply ArenaId.eq_of_number_eq
  rw [Arena.nextId, ArenaId.number_ofPosition registers.coherent.nodesFit]
  exact sameLength.symm

theorem addNode (registers : workflow.Registers registry) {entry : NodeEntry}
    (takes : workflow.TakesTexts entry.identTexts entry.nameTexts)
    (room : registry.nodes.length < EntryKind.node.capacity)
    (portRoom : registry.ports.length + entry.ports.length ≤ EntryKind.port.capacity) :
    (workflow.addNode entry).1.Registers (registry.takeNode entry).1 ∧
      (workflow.addNode entry).2 = (registry.takeNode entry).2 := by
  have coherent := (extends_addNode registers.coherent entry).coherent registers.coherent
  obtain ⟨known, ident, interned, takesName⟩ := takes.internIdent
  obtain ⟨registersKnown, isText⟩ := registers.internIdent interned
  have declared := registersKnown.declares_iff isText
  unfold Workflow.addNode at coherent ⊢
  unfold Registry.takeNode
  simp only [interned] at coherent ⊢
  by_cases isKnown : entry.id ∈ registry.ids
  · rw [if_pos (declared.mpr isKnown), if_pos isKnown]
    exact ⟨registersKnown, rfl⟩
  rw [if_neg (mt declared.mp isKnown)] at coherent ⊢
  rw [if_neg isKnown]
  obtain ⟨labelled, label, named, takesPorts⟩ := takesName.internName
  have registersLabelled := registersKnown.internName named
  have sameSize : registry.nodes.length = labelled.nodes.size := by
    have sameLength := registersLabelled.nodes.length_eq
    rwa [List.length_map] at sameLength
  simp only [named] at coherent ⊢
  rw [if_neg (by omega)] at coherent ⊢
  have stillText := identText?_of_grown (extends_internName named).grown isText
  have pushed := registersLabelled.pushNode label stillText isKnown room
  have takesPushed : (labelled.pushNode ident label).TakesTexts (entry.ports.map PortEntry.id)
      (entry.ports.map PortEntry.name) := ⟨takesPorts.ids, takesPorts.names⟩
  rw [registersLabelled.nextNode_eq] at coherent ⊢
  have ofPorts := pushed.addPorts ⟨registry.nodes.length⟩ #[] takesPushed (by simp) portRoom
  unfold completeNode at coherent ⊢
  rcases added : (labelled.pushNode ident label).addPorts ⟨registry.nodes.length⟩ #[]
    entry.ports with ⟨listing, result⟩
  rcases taken : ({ registry with nodes := registry.nodes ++ [entry.id] } : Registry).takePorts
    ⟨registry.nodes.length⟩ entry.ports with ⟨after, answer⟩
  rw [added, taken] at ofPorts
  rw [added] at coherent
  obtain ⟨registersListing, sameAnswer⟩ := ofPorts
  cases result with
  | error error =>
      cases sameAnswer
      exact ⟨registersListing, rfl⟩
  | ok ids =>
      cases sameAnswer
      -- No port had the number of the node before, so these are all that it owns.
      have own : ∀ id, (⟨registry.nodes.length⟩, id) ∈ after.ports ↔
          id ∈ entry.ports.map PortEntry.id := by
        intro id
        have notOld : ((⟨registry.nodes.length⟩ : NodeId), id) ∉ registry.ports :=
          fun old => Nat.lt_irrefl _ (registers.owners _ old)
        rw [Registry.takePorts_eq_ok taken]
        simp [notOld]
      have isDefault := registersListing.defaultPortFor_eq own
      dsimp only at coherent ⊢
      cases found : listing.defaultPortFor ⟨registry.nodes.length⟩ entry with
      | error error =>
          rw [found] at isDefault
          exact ⟨registersListing, isDefault⟩
      | ok defaultPort =>
          rw [found] at isDefault coherent
          exact ⟨registersListing.setPorts coherent, isDefault⟩

end Registers

end Workflow

end FlowGraph
