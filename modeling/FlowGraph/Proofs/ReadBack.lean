import FlowGraph.Proofs.Embedding
import FlowGraph.Proofs.LoadedDocument

/-!
Reading a loaded workflow back. Every entry of an accepted document is stored at its own
place, with the texts that it was written with: nothing is left out, put in another place or
stored under a number that has wrapped around.
-/

namespace FlowGraph

def Document.portEntries (document : Document) : List (NodeId × PortEntry) :=
  document.nodes.zipIdx.flatMap fun node => node.1.ports.map (Prod.mk ⟨node.2⟩)

theorem Document.mem_portEntries {document : Document} {node : NodeId} {port : PortEntry} :
    (node, port) ∈ document.portEntries ↔
      ∃ entry, document.nodes[node.number]? = some entry ∧ port ∈ entry.ports := by
  obtain ⟨place⟩ := node
  simp only [portEntries, List.mem_flatMap, List.mem_map, Prod.mk.injEq, NodeId.mk.injEq]
  constructor
  · rintro ⟨⟨entry, _⟩, stored, _, isPort, rfl, rfl⟩
    exact ⟨entry, List.mem_zipIdx_iff_getElem?.mp stored, isPort⟩
  · rintro ⟨entry, found, isPort⟩
    exact ⟨(entry, place), List.mem_zipIdx_iff_getElem?.mpr found, port, isPort, rfl, rfl⟩

namespace Workflow

variable {before after workflow next : Workflow}

/-! ### Entries as they are written -/

structure ReadsTrigger (workflow : Workflow) (entry : TriggerEntry) (trigger : Trigger) : Prop where
  ident : workflow.identText? trigger.ident = some entry.id
  label : workflow.nameText? trigger.label = some (entry.label.getD entry.id)

structure ReadsPort (workflow : Workflow) (entry : NodeId × PortEntry) (port : Port) : Prop where
  ident : workflow.identText? port.ident = some entry.2.id
  node : port.node = entry.1
  name : workflow.nameText? port.name = some entry.2.name

/-- A node as it is written, with its place. Its ports are stored in the order in which they
are written, and its default port is one of its own with the id that is written. -/
structure ReadsNode (workflow : Workflow) (entry : NodeEntry × Nat) (node : Node) : Prop where
  ident : workflow.identText? node.ident = some entry.1.id
  label : workflow.nameText? node.label = some (entry.1.label.getD entry.1.id)
  ports : List.Forall₂ (fun written port => ∃ stored, workflow.port? port = some stored ∧
    workflow.ReadsPort (⟨entry.2⟩, written) stored) entry.1.ports node.ports
  defaultPort : Option.Rel (fun id port => ∃ stored, workflow.port? port = some stored ∧
    stored.node = ⟨entry.2⟩ ∧ workflow.identText? stored.ident = some id)
    entry.1.defaultPort node.defaultPort

/-- A workflow holds what a document says, entry by entry. -/
structure ReadsBack (workflow : Workflow) (document : Document) : Prop where
  entrypoint : workflow.entrypoint.map workflow.identText? = document.entrypoint.map some
  triggers : List.Forall₂ workflow.ReadsTrigger document.triggers workflow.triggers.toList
  nodes : List.Forall₂ workflow.ReadsNode document.nodes.zipIdx workflow.nodes.toList
  ports : List.Forall₂ workflow.ReadsPort document.portEntries workflow.ports.toList
  edges : List.Forall₂ workflow.Reads document.edges workflow.edges.toList

/-! ### What stays readable -/

structure Keeps (before after : Workflow) : Prop where
  idents : before.idents.Grown after.idents
  names : before.names.Grown after.names
  lawful : before.names.Lawful → after.names.Lawful
  ports : ∀ {port stored}, before.port? port = some stored → after.port? port = some stored

theorem Keeps.trans {first second third : Workflow} (before : Keeps first second)
    (after : Keeps second third) : Keeps first third :=
  ⟨before.idents.trans after.idents, before.names.trans after.names,
    fun lawful => after.lawful (before.lawful lawful),
    fun found => after.ports (before.ports found)⟩

private theorem keeps_of_eq (sameIdents : after.idents = before.idents)
    (sameNames : after.names = before.names) (samePorts : after.ports = before.ports) :
    Keeps before after where
  idents := sameIdents ▸ .refl _
  names := sameNames ▸ .refl _
  lawful := fun lawful => sameNames ▸ lawful
  ports := by
    intro port stored found
    rw [port?, samePorts]
    exact found

private theorem keeps_internIdent {id : String} {result : Except LoadError IdentId}
    (interned : workflow.internIdent id = (next, result)) : Keeps workflow next := by
  have only := (interns_internIdent interned).rest
  refine ⟨(interns_internIdent interned).grown, ?_, ?_, ?_⟩ <;> rw [only]
  · exact .refl _
  · exact fun lawful => lawful
  · exact fun found => found

private theorem nameText?_eq_some {name : NameId} {text : String} :
    workflow.nameText? name = some text ↔ workflow.names.strings[name.number]? = some text := by
  rw [nameText?, Interner.toOption_get]

theorem keeps_internName {text : String} {result : Except LoadError NameId}
    (named : workflow.internName text = (next, result)) :
    Keeps workflow next ∧ ∀ label, workflow.names.Lawful → result = .ok label →
      next.nameText? label = some text := by
  rcases stored : workflow.names.intern text with ⟨names, outcome⟩
  unfold internName at named
  rw [stored] at named
  cases named
  refine ⟨⟨.refl _, Interner.grown_intern stored,
    fun lawful => Interner.lawful_intern lawful stored, fun found => found⟩, ?_⟩
  intro label lawful isOk
  cases outcome with
  | error error => cases isOk
  | ok key =>
      cases isOk
      exact nameText?_eq_some.mpr (Interner.getElem?_intern lawful stored)

namespace Keeps

variable (keeps : Keeps before after)
include keeps

theorem identText? {ident : IdentId} {text : String}
    (isText : before.identText? ident = some text) : after.identText? ident = some text :=
  identText?_of_grown keeps.idents isText

theorem nameText? {name : NameId} {text : String} (isText : before.nameText? name = some text) :
    after.nameText? name = some text :=
  nameText?_eq_some.mpr (keeps.names _ _ (nameText?_eq_some.mp isText))

private theorem readsTrigger {entry : TriggerEntry} {trigger : Trigger}
    (reads : before.ReadsTrigger entry trigger) : after.ReadsTrigger entry trigger :=
  ⟨keeps.identText? reads.ident, keeps.nameText? reads.label⟩

theorem readsPort {entry : NodeId × PortEntry} {port : Port} (reads : before.ReadsPort entry port) :
    after.ReadsPort entry port :=
  ⟨keeps.identText? reads.ident, reads.node, keeps.nameText? reads.name⟩

private theorem readsNode {entry : NodeEntry × Nat} {node : Node}
    (reads : before.ReadsNode entry node) : after.ReadsNode entry node where
  ident := keeps.identText? reads.ident
  label := keeps.nameText? reads.label
  ports := reads.ports.imp fun _ _ ⟨stored, found, readsPort⟩ =>
    ⟨stored, keeps.ports found, keeps.readsPort readsPort⟩
  defaultPort := by
    rcases rel_cases reads.defaultPort with ⟨isNone, alsoNone⟩ | ⟨_, _, isPort, alsoPort, alike⟩
    · rw [isNone, alsoNone]
      exact .none
    · rw [isPort, alsoPort]
      obtain ⟨stored, found, isOwn, isText⟩ := alike
      exact .some ⟨stored, keeps.ports found, isOwn, keeps.identText? isText⟩

end Keeps

/-! ### Ports of one node -/

structure AddsPorts (before : Workflow) (node : NodeId) (entries : List PortEntry)
    (ids : List PortId) (after : Workflow) : Prop extends Keeps before after where
  rest : after = { before with
    idents := after.idents, names := after.names, ports := after.ports
    portTable := after.portTable }
  stored : ∃ ports, after.ports.toList = before.ports.toList ++ ports ∧
    List.Forall₂ after.ReadsPort (entries.map (Prod.mk node)) ports
  listed : List.Forall₂ (fun written port => ∃ stored, after.port? port = some stored ∧
    after.ReadsPort (node, written) stored) entries ids

private theorem addsPorts_addPort {node : NodeId} {entry : PortEntry} {port : PortId}
    (coherent : workflow.Coherent) (lawful : workflow.names.Lawful)
    (added : workflow.addPort node entry = (next, .ok port)) :
    AddsPorts workflow node [entry] [port] next := by
  obtain ⟨known, ident, labelled, name, interned, _, named, room, rfl, rfl⟩ := addPort_eq_ok added
  have keepsKnown := keeps_internIdent interned
  obtain ⟨keepsLabelled, isName⟩ := keeps_internName named
  have toLabelled := keepsKnown.trans keepsLabelled
  have toNext : Keeps labelled (labelled.pushPort { ident := ident, node := node, name := name }) :=
    ⟨.refl _, .refl _, fun lawful => lawful, Arena.get?_push_of_get? _⟩
  have reads : labelled.ReadsPort (node, entry) { ident := ident, node := node, name := name } :=
    ⟨keepsLabelled.identText? (identText?_internIdent coherent interned), rfl,
      isName name (keepsKnown.lawful lawful) rfl⟩
  have sameBefore :
      labelled = { workflow with idents := labelled.idents, names := labelled.names } := by
    rw [internName_eq named, (interns_internIdent interned).rest]
  refine ⟨toLabelled.trans toNext, ?_, ⟨[_], ?_, .cons (toNext.readsPort reads) .nil⟩,
    .cons ⟨_, ?_, toNext.readsPort reads⟩ .nil⟩
  · rw [sameBefore]
    rfl
  · rw [sameBefore]
    exact Array.toList_push
  · exact Arena.get?_push_nextId _ (Nat.lt_trans room (Nat.lt_succ_self _))

theorem AddsPorts.trans {first second third : Workflow} {node : NodeId}
    {entries others : List PortEntry} {ids otherIds : List PortId}
    (before : AddsPorts first node entries ids second)
    (after : AddsPorts second node others otherIds third) :
    AddsPorts first node (entries ++ others) (ids ++ otherIds) third where
  toKeeps := before.toKeeps.trans after.toKeeps
  rest := by rw [after.rest, before.rest]
  stored := by
    obtain ⟨ports, portsAre, reads⟩ := before.stored
    obtain ⟨otherPorts, othersAre, otherReads⟩ := after.stored
    refine ⟨ports ++ otherPorts, ?_, ?_⟩
    · rw [othersAre, portsAre, List.append_assoc]
    · rw [List.map_append]
      exact List.rel_append (reads.imp fun _ _ => after.readsPort) otherReads
  listed := List.rel_append
    (before.listed.imp fun _ _ ⟨stored, found, reads⟩ =>
      ⟨stored, after.toKeeps.ports found, after.readsPort reads⟩) after.listed

theorem addsPorts_addPorts {node : NodeId} {entries : List PortEntry} {ports : Array PortId}
    {all : List PortId} (coherent : workflow.Coherent) (lawful : workflow.names.Lawful)
    (added : workflow.addPorts node ports entries = (next, .ok all)) :
    ∃ ids, all = ports.toList ++ ids ∧ AddsPorts workflow node entries ids next := by
  induction entries generalizing workflow ports with
  | nil =>
      cases added
      exact ⟨[], (List.append_nil _).symm, keeps_of_eq rfl rfl rfl, rfl,
        ⟨[], (List.append_nil _).symm, .nil⟩, .nil⟩
  | cons entry rest ih =>
      rw [addPorts] at added
      rcases first : workflow.addPort node entry with ⟨known, error | port⟩
      · rw [first] at added
        cases added
      · rw [first] at added
        have addsFirst := addsPorts_addPort coherent lawful first
        obtain ⟨ids, allAre, addsRest⟩ := ih ((addPort_spec coherent first).1.coherent coherent)
          (addsFirst.lawful lawful) added
        refine ⟨port :: ids, ?_, addsFirst.trans addsRest⟩
        rw [allAre, Array.toList_push, List.append_assoc]
        rfl

/-! ### Accepted entries -/

/-- What holds of a workflow while a document is loaded: it reads back as the part of the
document that has been read, and triggers are found under their own idents. -/
structure Written (workflow : Workflow) (document : Document) : Prop
    extends ReadsBack workflow document where
  coherent : workflow.Coherent
  names : workflow.names.Lawful
  triggersFit : workflow.triggers.size < UInt8.size
  triggerTable : ∀ ident trigger, workflow.lookupTrigger? ident = some trigger ↔
    ∃ stored, workflow.trigger? trigger = some stored ∧ stored.ident = ident

/-- An ident is that of a raw id exactly when the id is its text. -/
theorem ident?_eq_some (coherent : workflow.Coherent) {id : String} {ident : IdentId} :
    workflow.ident? id = some ident ↔ workflow.identText? ident = some id := by
  rw [identText?_eq_some, ← coherent.identsLawful.lookup, ident?]
  cases workflow.idents.lookup? id with
  | none => simp
  | some key =>
      simp only [Option.map_some, Option.some.injEq]
      exact ⟨fun same => same ▸ rfl, fun same => same ▸ rfl⟩

private theorem ofEntrypoint_reads {entrypoint : Option String}
    (made : ofEntrypoint entrypoint = .ok workflow) :
    workflow.entrypoint.map workflow.identText? = entrypoint.map some := by
  cases entrypoint with
  | none =>
      cases made
      rfl
  | some id =>
      unfold ofEntrypoint at made
      rcases interned : empty.internIdent id with ⟨known, error | ident⟩
      · simp only [interned] at made
        cases made
      · simp only [interned] at made
        cases made
        have isText := identText?_internIdent coherent_empty interned
        exact congrArg some isText

theorem written_ofEntrypoint {entrypoint : Option String}
    (made : ofEntrypoint entrypoint = .ok workflow) :
    workflow.Written { entrypoint := entrypoint } := by
  have only := ofEntrypoint_eq made
  refine ⟨⟨ofEntrypoint_reads made, ?_, ?_, ?_, ?_⟩, coherent_ofEntrypoint made, ?_, ?_, ?_⟩
  iterate 4
    rw [only]
    exact .nil
  · rw [only]
    exact Interner.lawful_empty
  · rw [only]
    exact Nat.zero_lt_succ _
  · intro ident trigger
    rw [only]
    constructor
    · intro found
      cases found
    · rintro ⟨stored, found, _⟩
      cases found

private theorem Written.setEdges {document : Document} {entries : List EdgeEntry}
    (written : before.Written document) (keeps : Keeps before after) (coherent : after.Coherent)
    (rest : after = { before with
      idents := after.idents, names := after.names, edges := after.edges })
    (edges : List.Forall₂ after.Reads entries after.edges.toList) :
    after.Written { document with edges := entries } := by
  have sameEntrypoint : after.entrypoint = before.entrypoint := by rw [rest]
  have sameTriggers : after.triggers = before.triggers := by rw [rest]
  have sameTable : after.triggerTable = before.triggerTable := by rw [rest]
  have sameNodes : after.nodes = before.nodes := by rw [rest]
  have samePorts : after.ports = before.ports := by rw [rest]
  refine ⟨⟨?_, ?_, ?_, ?_, edges⟩, coherent, keeps.lawful written.names, ?_, ?_⟩
  · rw [sameEntrypoint]
    exact map_identText?_of_grown keeps.idents written.entrypoint
  · rw [sameTriggers]
    exact written.triggers.imp fun _ _ => keeps.readsTrigger
  · rw [sameNodes]
    exact written.nodes.imp fun _ _ => keeps.readsNode
  · rw [samePorts]
    exact written.ports.imp fun _ _ => keeps.readsPort
  · rw [sameTriggers]
    exact written.triggersFit
  · intro ident trigger
    rw [lookupTrigger?, trigger?, sameTriggers, sameTable]
    exact written.triggerTable ident trigger

theorem Written.intern {document : Document} {known labelled : Workflow} {id text : String}
    {ident : IdentId} {label : NameId} (written : workflow.Written document)
    (interned : workflow.internIdent id = (known, .ok ident))
    (named : known.internName text = (labelled, .ok label)) :
    labelled.Written document ∧ labelled.identText? ident = some id ∧
      labelled.nameText? label = some text := by
  obtain ⟨keepsNames, isLabel⟩ := keeps_internName named
  have keepsIdents := keeps_internIdent interned
  have grown := (interns_internIdent interned).toExtends.trans (extends_internName named)
  have only : labelled = { workflow with idents := labelled.idents, names := labelled.names } := by
    rw [internName_eq named, (interns_internIdent interned).rest]
  have keeps := keepsIdents.trans keepsNames
  have sameEdges : labelled.edges = workflow.edges := by rw [only]
  refine ⟨written.setEdges keeps (grown.coherent written.coherent) ?_ ?_,
    keepsNames.identText? (identText?_internIdent written.coherent interned),
    isLabel label (keepsIdents.lawful written.names) rfl⟩
  · rw [only]
  · rw [sameEdges]
    exact written.edges.imp fun _ _ reads => reads.mono keeps.idents

/-! ### Triggers -/

theorem triggerTable_pushTrigger {trigger : Trigger}
    (fits : workflow.triggers.size < UInt8.size)
    (table : ∀ ident id, workflow.lookupTrigger? ident = some id ↔
      ∃ stored, workflow.trigger? id = some stored ∧ stored.ident = ident)
    (isNew : workflow.lookupTrigger? trigger.ident = none) (ident : IdentId) (id : TriggerId) :
    (workflow.pushTrigger trigger).lookupTrigger? ident = some id ↔
      ∃ stored, (workflow.pushTrigger trigger).trigger? id = some stored ∧
        stored.ident = ident := by
  have lookup : (workflow.pushTrigger trigger).lookupTrigger? ident =
      if trigger.ident = ident then some workflow.triggers.nextId
      else workflow.lookupTrigger? ident :=
    getElem?_insert_ident workflow.triggerTable trigger.ident ident workflow.triggers.nextId
  rw [lookup]
  constructor
  · intro found
    split at found
    · rename_i same
      cases found
      exact ⟨trigger, Arena.get?_push_nextId _ fits, same⟩
    · obtain ⟨stored, isStored, same⟩ := (table ident id).mp found
      exact ⟨stored, Arena.get?_push_of_get? _ isStored, same⟩
  · rintro ⟨stored, isStored, rfl⟩
    rcases Arena.get?_push_cases fits isStored with old | ⟨rfl, rfl⟩
    · have declared := (table stored.ident id).mpr ⟨stored, old, rfl⟩
      have different : trigger.ident ≠ stored.ident := by
        intro same
        rw [same, declared] at isNew
        cases isNew
      rw [if_neg different, declared]
    · rw [if_pos rfl]

theorem Written.pushTrigger {document : Document} {entry : TriggerEntry}
    (written : workflow.Written document) (trigger : Trigger)
    (reads : workflow.ReadsTrigger entry trigger)
    (isNew : workflow.lookupTrigger? trigger.ident = none)
    (room : workflow.triggers.size < EntryKind.trigger.capacity)
    (coherent : (workflow.pushTrigger trigger).Coherent) :
    (workflow.pushTrigger trigger).Written
      { document with triggers := document.triggers ++ [entry] } := by
  have keeps : Keeps workflow (workflow.pushTrigger trigger) := keeps_of_eq rfl rfl rfl
  refine ⟨⟨?_, ?_, ?_, ?_, ?_⟩, coherent, written.names, ?_,
    triggerTable_pushTrigger written.triggersFit written.triggerTable isNew⟩
  · exact map_identText?_of_grown keeps.idents written.entrypoint
  · have triggersAre : (workflow.pushTrigger trigger).triggers.toList =
        workflow.triggers.toList ++ [trigger] := Array.toList_push
    rw [triggersAre]
    exact List.rel_append (written.triggers.imp fun _ _ => keeps.readsTrigger)
      (.cons (keeps.readsTrigger reads) .nil)
  · exact written.nodes.imp fun _ _ => keeps.readsNode
  · exact written.ports.imp fun _ _ => keeps.readsPort
  · exact written.edges.imp fun _ _ reads => reads.mono keeps.idents
  · change (workflow.triggers.push trigger).size < UInt8.size
    rw [Arena.size_push]
    exact Nat.succ_lt_succ room

theorem Written.addTrigger {document : Document} {entry : TriggerEntry}
    (written : workflow.Written document) (added : workflow.addTrigger entry = (next, .ok ())) :
    next.Written { document with triggers := document.triggers ++ [entry] } := by
  have extended := extends_addTrigger written.coherent entry
  rw [added] at extended
  obtain ⟨known, ident, labelled, label, interned, notDeclared, named, room, rfl⟩ :=
    addTrigger_eq_ok added
  obtain ⟨labelledWritten, isText, isLabel⟩ := written.intern interned named
  have isNew : labelled.lookupTrigger? ident = none := by
    rw [internName_eq named]
    exact (lookup_eq_none_of_not_declares notDeclared).1
  exact labelledWritten.pushTrigger { ident := ident, label := label }
    ⟨isText, isLabel⟩ isNew room (extended.coherent written.coherent)

/-! ### Nodes -/

private theorem defaultPortFor_reads {node : NodeId} {entry : NodeEntry}
    {defaultPort : Option PortId}
    (coherent : workflow.Coherent) (found : workflow.defaultPortFor node entry = .ok defaultPort) :
    Option.Rel (fun id port => ∃ stored, workflow.port? port = some stored ∧ stored.node = node ∧
      workflow.identText? stored.ident = some id) entry.defaultPort defaultPort := by
  unfold defaultPortFor at found
  cases written : entry.defaultPort with
  | none =>
      rw [written] at found
      cases found
      exact .none
  | some id =>
      simp only [written] at found
      split at found
      · rename_i port isOwn
        cases found
        obtain ⟨isPort, ofNode⟩ := Option.filter_eq_some_iff.mp isOwn
        obtain ⟨ident, isIdent, declared⟩ := Option.bind_eq_some_iff.mp isPort
        obtain ⟨stored, isStored, rfl⟩ := coherent.portStored declared
        rw [isStored, Option.any_some, beq_iff_eq] at ofNode
        exact .some ⟨stored, isStored, ofNode, (ident?_eq_some coherent).mp isIdent⟩
      · cases found

private theorem Document.portEntries_append {document : Document} {entry : NodeEntry} :
    ({ document with nodes := document.nodes ++ [entry] } : Document).portEntries =
      document.portEntries ++ entry.ports.map (Prod.mk ⟨document.nodes.length⟩) := by
  simp [Document.portEntries, List.zipIdx_append]

theorem Written.setPorts {document : Document} {entry : NodeEntry} {listing : Workflow}
    {ident : IdentId} {label : NameId} {ids : List PortId} {defaultPort : Option PortId}
    (written : workflow.Written document)
    (isText : workflow.identText? ident = some entry.id)
    (isLabel : workflow.nameText? label = some (entry.label.getD entry.id))
    (adds : AddsPorts (workflow.pushNode ident label) workflow.nodes.nextId entry.ports ids listing)
    (isDefault : listing.defaultPortFor workflow.nodes.nextId entry = .ok defaultPort)
    (listingCoherent : listing.Coherent)
    (isListed : next = listing.setPorts workflow.nodes.nextId ids defaultPort)
    (coherent : next.Coherent) :
    next.Written { document with nodes := document.nodes ++ [entry] } := by
  have fits := written.coherent.nodesFit
  have place : workflow.nodes.nextId = ⟨document.nodes.length⟩ := by
    apply ArenaId.eq_of_number_eq
    rw [Arena.nextId, ArenaId.number_ofPosition fits]
    have sameLength := written.nodes.length_eq
    rw [List.length_zipIdx] at sameLength
    exact sameLength.symm
  have samePushed : listing.nodes = (workflow.pushNode ident label).nodes := by rw [adds.rest]
  have bare : listing.node? workflow.nodes.nextId =
      some { ident := ident, label := label, ports := [], defaultPort := none } := by
    rw [node?, samePushed]
    exact Arena.get?_push_nextId _ fits
  let node : Node := { ident := ident, label := label, ports := ids, defaultPort := defaultPort }
  have whole : next = { listing with nodes := workflow.nodes.push node } := by
    rw [isListed, Workflow.setPorts, bare, samePushed]
    dsimp only
    rw [pushNode, Arena.set_push_nextId _ _ fits]
  have sameEntrypoint : next.entrypoint = workflow.entrypoint := by
    rw [whole, adds.rest]
    rfl
  have sameTriggers : next.triggers = workflow.triggers := by
    rw [whole, adds.rest]
    rfl
  have sameTable : next.triggerTable = workflow.triggerTable := by
    rw [whole, adds.rest]
    rfl
  have sameEdges : next.edges = workflow.edges := by
    rw [whole, adds.rest]
    rfl
  have toPushed : Keeps workflow (workflow.pushNode ident label) := keeps_of_eq rfl rfl rfl
  have ofListing : Keeps listing next :=
    keeps_of_eq (by rw [whole]) (by rw [whole]) (by rw [whole])
  have keeps := toPushed.trans (adds.toKeeps.trans ofListing)
  have reads : next.ReadsNode (entry, document.nodes.length) node := by
    rw [place] at adds isDefault
    have ofDefault : listing.ReadsNode (entry, document.nodes.length) node :=
      { ident := (toPushed.trans adds.toKeeps).identText? isText
        label := (toPushed.trans adds.toKeeps).nameText? isLabel
        ports := adds.listed
        defaultPort := defaultPortFor_reads listingCoherent isDefault }
    exact ofListing.readsNode ofDefault
  refine ⟨⟨?_, ?_, ?_, ?_, ?_⟩, coherent, keeps.lawful written.names, ?_, ?_⟩
  · rw [sameEntrypoint]
    exact map_identText?_of_grown keeps.idents written.entrypoint
  · rw [sameTriggers]
    exact written.triggers.imp fun _ _ => keeps.readsTrigger
  · have nodesAre : next.nodes.toList = workflow.nodes.toList ++ [node] := by
      rw [whole]
      exact Array.toList_push
    rw [nodesAre, List.zipIdx_append, Nat.zero_add]
    exact List.rel_append (written.nodes.imp fun _ _ => keeps.readsNode) (.cons reads .nil)
  · obtain ⟨ports, portsAre, readsPorts⟩ := adds.stored
    have nextPorts : next.ports.toList = workflow.ports.toList ++ ports := by
      rw [whole]
      exact portsAre
    rw [Document.portEntries_append, nextPorts, ← place]
    exact List.rel_append (written.ports.imp fun _ _ => keeps.readsPort)
      (readsPorts.imp fun _ _ => ofListing.readsPort)
  · rw [sameEdges]
    exact written.edges.imp fun _ _ reads => reads.mono keeps.idents
  · rw [sameTriggers]
    exact written.triggersFit
  · intro ident trigger
    rw [lookupTrigger?, trigger?, sameTriggers, sameTable]
    exact written.triggerTable ident trigger

theorem Written.addNode {document : Document} {entry : NodeEntry}
    (written : workflow.Written document) (added : workflow.addNode entry = (next, .ok ())) :
    next.Written { document with nodes := document.nodes ++ [entry] } := by
  have extended := extends_addNode written.coherent entry
  rw [added] at extended
  obtain ⟨known, ident, labelled, label, listing, ids, defaultPort, interned, notDeclared, named,
    room, ofPorts, isDefault, rfl⟩ := addNode_eq_ok added
  obtain ⟨labelledWritten, isText, isLabel⟩ := written.intern interned named
  have pushed := extends_pushNode_of_internIdent written.coherent interned named notDeclared room
  have pushedCoherent := pushed.coherent written.coherent
  have noneYet : ∀ port ∈ (#[] : Array PortId),
      (labelled.pushNode ident label).Owns labelled.nodes.nextId port := by
    intro port member
    exact absurd member (Array.not_mem_empty port)
  have listingCoherent := (addPorts_spec pushedCoherent noneYet ofPorts).1.coherent pushedCoherent
  obtain ⟨_, rfl, adds⟩ := addsPorts_addPorts pushedCoherent labelledWritten.names ofPorts
  exact labelledWritten.setPorts isText isLabel adds isDefault listingCoherent rfl
    (extended.coherent written.coherent)

/-! ### Whole documents -/

/-- An accepted document reads back. -/
theorem written_of_load {document : Document} (loaded : load document = .ok workflow) :
    workflow.Written document := by
  obtain ⟨base, baseLoaded, _, adds, reads⟩ := exists_base_of_load loaded
  have written : base.Written { document with edges := [] } :=
    load_induction Written baseLoaded (fun _ => written_ofEntrypoint)
      (fun _ _ _ _ written => written.addTrigger) (fun _ _ _ _ written => written.addNode)
  have samePorts : workflow.ports = base.ports := by rw [adds.rest]
  have sameNames : workflow.names = base.names := by rw [adds.rest]
  have keeps : Keeps base workflow :=
    { idents := adds.grown
      names := sameNames ▸ .refl _
      lawful := fun lawful => sameNames ▸ lawful
      ports := by
        intro port stored found
        rw [port?, samePorts]
        exact found }
  refine written.setEdges keeps adds.coherent ?_ reads
  rw [adds.rest]

end Workflow

end FlowGraph
