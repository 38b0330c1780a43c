import FlowGraph.Proofs.ReadBack
import FlowGraph.Workflow.Resolution

/-!
A document answers every question about the workflow that it loads into. An id is looked up
by going through the entries as they are written, and an edge is resolved on its raw ids;
the tables of the loaded workflow give the same answers.
-/

namespace FlowGraph

namespace Document

/-! ### Looking up raw ids -/

def nodeOf? (document : Document) (id : String) : Option NodeId :=
  (document.nodes.findIdx? fun entry => entry.id == id).map NodeId.mk

def triggerOf? (document : Document) (id : String) : Option TriggerId :=
  (document.triggers.findIdx? fun entry => entry.id == id).map TriggerId.mk

def portOf? (document : Document) (id : String) : Option PortId :=
  (document.portEntries.findIdx? fun entry => entry.2.id == id).map PortId.mk

/-- What an edge leaves whose source is a node: the node itself if the edge names no port or
the default port, and the named port if it is another one of the node's own. -/
def exitOf? (document : Document) (node : NodeId) : Option String → Option Reference
  | none => some (.node node)
  | some id =>
      (document.nodes[node.number]?).bind fun entry =>
        if entry.defaultPort = some id then
          some (.node node)
        else if entry.ports.any fun port => port.id == id then
          (document.portOf? id).map (.port node)
        else
          none

/-- What the raw endpoints of an edge stand for. Only a node can be entered. The source is the
entrypoint, else a trigger, else a node, and its port counts for a node alone. -/
def resolve (document : Document) (edge : EdgeEntry) : Except DanglingCause ResolvedEdge :=
  match document.nodeOf? edge.targetNode with
  | none => .error .unknownTarget
  | some target =>
      if document.entrypoint = some edge.sourceNode then
        .ok { source := none, target := target }
      else
        match document.triggerOf? edge.sourceNode, document.nodeOf? edge.sourceNode with
        | some trigger, _ => .ok { source := some (.trigger trigger), target := target }
        | none, none => .error .unknownSource
        | none, some node =>
            match document.exitOf? node edge.sourcePort with
            | none => .error .unknownSourcePort
            | some source => .ok { source := some source, target := target }

end Document

namespace Workflow

variable {workflow : Workflow} {document : Document}

/-! ### Entries by their ids -/

private theorem find_eq_some {Id Value : Type} {lookup : IdentId → Option Id}
    {get? : Id → Option Value} {identOf : Value → IdentId} (coherent : workflow.Coherent)
    (declared : ∀ ident id, lookup ident = some id ↔
      ∃ value, get? id = some value ∧ identOf value = ident) {text : String} {id : Id} :
    (workflow.ident? text).bind lookup = some id ↔
      ∃ value, get? id = some value ∧ workflow.identText? (identOf value) = some text := by
  rw [Option.bind_eq_some_iff]
  constructor
  · rintro ⟨ident, isIdent, found⟩
    obtain ⟨value, stored, rfl⟩ := (declared ident id).mp found
    exact ⟨value, stored, (ident?_eq_some coherent).mp isIdent⟩
  · rintro ⟨value, stored, isText⟩
    exact ⟨identOf value, (ident?_eq_some coherent).mpr isText,
      (declared _ id).mpr ⟨value, stored, rfl⟩⟩

private theorem exists_stored_iff {Entry Value : Type} {reads : Entry → Value → Prop}
    {entries : List Entry} {values : Array Value} (ofEntry : Entry → Prop)
    (related : List.Forall₂ reads entries values.toList)
    {ofValue : Value → Prop} (alike : ∀ entry value, reads entry value →
      (ofValue value ↔ ofEntry entry)) (place : Nat) :
    (∃ value, values[place]? = some value ∧ ofValue value) ↔
      ∃ entry, entries[place]? = some entry ∧ ofEntry entry := by
  have atPlace : Option.Rel reads entries[place]? values[place]? := by
    rw [← values.getElem?_toList]
    exact rel_getElem? related place
  rcases rel_cases atPlace with ⟨isNone, alsoNone⟩ | ⟨entry, value, isEntry, isValue, reads⟩
  · simp [isNone, alsoNone]
  · simp [isEntry, isValue, alike entry value reads]

private theorem eq_map_findIdx? {Entry Id : Type} {entries : List Entry} {test : Entry → Bool}
    {make : Nat → Id} (number : Id → Nat)
    (numbers : ∀ place, number (make place) = place) {found : Option Id}
    (spec : ∀ id, found = some id ↔ ∃ entry, entries[number id]? = some entry ∧ test entry = true) :
    found = (entries.findIdx? test).map make := by
  cases first : entries.findIdx? test with
  | none =>
      rw [List.findIdx?_eq_none_iff] at first
      cases found with
      | none => rfl
      | some id =>
          obtain ⟨entry, stored, passes⟩ := (spec id).mp rfl
          rw [first entry (List.mem_of_getElem? stored)] at passes
          cases passes
  | some place =>
      obtain ⟨bound, passes, _⟩ := List.findIdx?_eq_some_iff_getElem.mp first
      refine (spec (make place)).mpr ⟨entries[place], ?_, passes⟩
      rw [numbers]
      exact List.getElem?_eq_getElem bound

namespace Written

variable (written : workflow.Written document)
include written

theorem findNode?_eq_some (id : String) (node : NodeId) :
    workflow.findNode? id = some node ↔
      ∃ entry, document.nodes[node.number]? = some entry ∧ entry.id = id := by
  have declared : ∀ ident node, workflow.lookupNode? ident = some node ↔
      ∃ stored, workflow.node? node = some stored ∧ stored.ident = ident := by
    intro ident node
    constructor
    · exact written.coherent.nodeStored
    · rintro ⟨stored, isStored, rfl⟩
      exact written.coherent.nodeDeclared isStored
  refine (find_eq_some written.coherent declared).trans ?_
  refine (exists_stored_iff (fun entry => entry.1.id = id) written.nodes ?_
    node.number).trans ?_
  · intro entry stored reads
    rw [reads.ident, Option.some.injEq]
  · simp [List.getElem?_zipIdx]

private theorem findTrigger?_eq_some (id : String) (trigger : TriggerId) :
    workflow.findTrigger? id = some trigger ↔
      ∃ entry, document.triggers[trigger.number]? = some entry ∧ entry.id = id := by
  refine (find_eq_some written.coherent written.triggerTable).trans ?_
  refine exists_stored_iff _ written.triggers ?_ trigger.number
  intro entry stored reads
  rw [reads.ident, Option.some.injEq]

theorem findPort?_eq_some (id : String) (port : PortId) :
    workflow.findPort? id = some port ↔
      ∃ stored, workflow.port? port = some stored ∧ workflow.identText? stored.ident = some id := by
  have declared : ∀ ident port, workflow.lookupPort? ident = some port ↔
      ∃ stored, workflow.port? port = some stored ∧ stored.ident = ident := by
    intro ident port
    constructor
    · exact written.coherent.portStored
    · rintro ⟨stored, isStored, rfl⟩
      exact written.coherent.portDeclared isStored
  exact find_eq_some written.coherent declared

private theorem exists_portEntry_iff (port : PortId) (holds : NodeId → String → Prop) :
    (∃ stored, workflow.port? port = some stored ∧
        ∃ id, workflow.identText? stored.ident = some id ∧ holds stored.node id) ↔
      ∃ entry, document.portEntries[port.number]? = some entry ∧ holds entry.1 entry.2.id := by
  refine exists_stored_iff _ written.ports ?_ port.number
  intro entry stored reads
  simp [reads.ident, reads.node]

theorem findNode?_eq (id : String) : workflow.findNode? id = document.nodeOf? id := by
  refine eq_map_findIdx? NodeId.number (fun _ => rfl) ?_
  intro node
  simp only [written.findNode?_eq_some, beq_iff_eq]

theorem findTrigger?_eq (id : String) : workflow.findTrigger? id = document.triggerOf? id := by
  refine eq_map_findIdx? TriggerId.number (fun _ => rfl) ?_
  intro trigger
  simp only [written.findTrigger?_eq_some, beq_iff_eq]

theorem findPort?_eq (id : String) : workflow.findPort? id = document.portOf? id := by
  refine eq_map_findIdx? PortId.number (fun _ => rfl) ?_
  intro port
  rw [written.findPort?_eq_some]
  have := written.exists_portEntry_iff port fun _ other => other = id
  simpa using this

/-! ### Resolution -/

section Idents

variable {ident : IdentId} {text : String} (isText : workflow.identText? ident = some text)
include isText

theorem lookupNode?_eq : workflow.lookupNode? ident = document.nodeOf? text := by
  rw [← written.findNode?_eq, findNode?, (ident?_eq_some written.coherent).mpr isText]
  rfl

theorem lookupTrigger?_eq : workflow.lookupTrigger? ident = document.triggerOf? text := by
  rw [← written.findTrigger?_eq, findTrigger?, (ident?_eq_some written.coherent).mpr isText]
  rfl

theorem lookupPort?_eq : workflow.lookupPort? ident = document.portOf? text := by
  rw [← written.findPort?_eq, findPort?, (ident?_eq_some written.coherent).mpr isText]
  rfl

theorem isEntrypoint_eq :
    workflow.isEntrypoint ident = decide (document.entrypoint = some text) := by
  have reads := written.entrypoint
  rw [Bool.eq_iff_iff, isEntrypoint, beq_iff_eq, decide_eq_true_iff]
  cases isEntry : document.entrypoint with
  | none =>
      rw [isEntry, Option.map_none, Option.map_eq_none_iff] at reads
      simp [reads]
  | some id =>
      rw [isEntry, Option.map_some, Option.map_eq_some_iff] at reads
      obtain ⟨other, isOther, ofOther⟩ := reads
      rw [isOther, Option.some.injEq, Option.some.injEq]
      constructor
      · rintro rfl
        exact Option.some.inj (ofOther.symm.trans isText)
      · rintro rfl
        exact written.coherent.ident_eq_of_identText? ofOther isText

end Idents

theorem exists_nodeEntry {node : NodeId} {stored : Node}
    (isNode : workflow.node? node = some stored) :
    ∃ entry, document.nodes[node.number]? = some entry ∧
      workflow.ReadsNode (entry, node.number) stored := by
  have atPlace : Option.Rel workflow.ReadsNode document.nodes.zipIdx[node.number]?
      (workflow.node? node) := by
    rw [node?, Arena.get?, ← Array.getElem?_toList]
    exact rel_getElem? written.nodes node.number
  rw [isNode, List.getElem?_zipIdx, Nat.zero_add] at atPlace
  cases isEntry : document.nodes[node.number]? with
  | none =>
      rw [isEntry] at atPlace
      cases atPlace
  | some entry =>
      rw [isEntry] at atPlace
      cases atPlace with
      | some reads => exact ⟨entry, rfl, reads⟩

theorem exists_triggerEntry {trigger : TriggerId} {stored : Trigger}
    (isTrigger : workflow.trigger? trigger = some stored) :
    ∃ entry, document.triggers[trigger.number]? = some entry ∧
      workflow.ReadsTrigger entry stored := by
  have atPlace : Option.Rel workflow.ReadsTrigger document.triggers[trigger.number]?
      (workflow.trigger? trigger) := by
    rw [trigger?, Arena.get?, ← Array.getElem?_toList]
    exact rel_getElem? written.triggers trigger.number
  rw [isTrigger] at atPlace
  rcases rel_cases atPlace with ⟨_, impossible⟩ | ⟨entry, _, isEntry, ⟨rfl⟩, reads⟩
  · cases impossible
  · exact ⟨entry, isEntry, reads⟩

theorem exists_portEntry {port : PortId} {stored : Port}
    (isPort : workflow.port? port = some stored) :
    ∃ entry, document.portEntries[port.number]? = some entry ∧ workflow.ReadsPort entry stored := by
  have atPlace : Option.Rel workflow.ReadsPort document.portEntries[port.number]?
      (workflow.port? port) := by
    rw [port?, Arena.get?, ← Array.getElem?_toList]
    exact rel_getElem? written.ports port.number
  rw [isPort] at atPlace
  rcases rel_cases atPlace with ⟨_, impossible⟩ | ⟨entry, _, isEntry, ⟨rfl⟩, reads⟩
  · cases impossible
  · exact ⟨entry, isEntry, reads⟩

private theorem own_iff {node : NodeId} {entry : NodeEntry} {port : PortId} {stored : Port}
    {id : String} (isEntry : document.nodes[node.number]? = some entry)
    (isPort : workflow.port? port = some stored)
    (isText : workflow.identText? stored.ident = some id) :
    stored.node = node ↔ ∃ written ∈ entry.ports, written.id = id := by
  constructor
  · rintro rfl
    obtain ⟨⟨node, own⟩, atPlace, sameNode, sameId⟩ :=
      (written.exists_portEntry_iff port fun node other => node = stored.node ∧ other = id).mp
        ⟨stored, isPort, id, isText, rfl, rfl⟩
    cases sameNode
    obtain ⟨other, isOther, member⟩ :=
      Document.mem_portEntries.mp (List.mem_of_getElem? atPlace)
    cases isEntry.symm.trans isOther
    exact ⟨own, member, sameId⟩
  · rintro ⟨own, member, rfl⟩
    obtain ⟨place, atPlace⟩ :=
      List.mem_iff_getElem?.mp (Document.mem_portEntries.mpr ⟨entry, isEntry, member⟩)
    obtain ⟨other, isOther, _, otherText, sameNode, rfl⟩ :=
      (written.exists_portEntry_iff ⟨place⟩ fun other id => other = node ∧ id = own.id).mpr
        ⟨_, atPlace, rfl, rfl⟩
    have samePort : port = ⟨place⟩ := by
      have found := (written.findPort?_eq_some own.id port).mpr ⟨stored, isPort, isText⟩
      have alsoFound := (written.findPort?_eq_some own.id ⟨place⟩).mpr ⟨other, isOther, otherText⟩
      exact Option.some.inj (found.symm.trans alsoFound)
    cases samePort
    cases isPort.symm.trans isOther
    exact sameNode

/-- The default port of a node is one of its own, and is found under the id that is written. -/
theorem exists_defaultPort (node : NodeId) {entry : NodeEntry} {value : Node} {id : String}
    (reads : workflow.ReadsNode (entry, node.number) value)
    (isDefault : entry.defaultPort = some id) :
    ∃ port stored, value.defaultPort = some port ∧ document.portOf? id = some port ∧
      workflow.port? port = some stored ∧ stored.node = node := by
  have ofDefault := reads.defaultPort
  dsimp only at ofDefault
  rw [isDefault] at ofDefault
  rcases rel_cases ofDefault with ⟨impossible, _⟩ | ⟨_, port, same, isStored, isOwn⟩
  · cases impossible
  · cases same
    obtain ⟨stored, isPort, ofNode, isText⟩ := isOwn
    refine ⟨port, stored, isStored, ?_, isPort, ofNode⟩
    rw [← written.findPort?_eq]
    exact (written.findPort?_eq_some id port).mpr ⟨stored, isPort, isText⟩

private theorem defaultPort_eq_some_iff {node : NodeId} {entry : NodeEntry} {value : Node}
    {port : PortId} {id : String} (reads : workflow.ReadsNode (entry, node.number) value)
    (found : document.portOf? id = some port) :
    value.defaultPort = some port ↔ entry.defaultPort = some id := by
  constructor
  · intro isStored
    have ofDefault := reads.defaultPort
    rw [isStored] at ofDefault
    rcases rel_cases ofDefault with ⟨_, impossible⟩ | ⟨other, _, isOther, same, isOwn⟩
    · cases impossible
    · cases same
      obtain ⟨stored, isPort, _, ofOther⟩ := isOwn
      rw [← written.findPort?_eq] at found
      obtain ⟨again, isAgain, isText⟩ := (written.findPort?_eq_some id port).mp found
      cases isPort.symm.trans isAgain
      cases ofOther.symm.trans isText
      exact isOther
  · intro isDefault
    obtain ⟨other, _, isStored, isOther, _⟩ := written.exists_defaultPort _ reads isDefault
    cases found.symm.trans isOther
    exact isStored

private theorem exitThrough?_eq {node : NodeId} {value : Node} {port : Option IdentId}
    {text : Option String} (isNode : workflow.node? node = some value)
    (isText : port.map workflow.identText? = text.map some) :
    workflow.exitThrough? node port = document.exitOf? node text := by
  rcases port with _ | ident <;> rcases text with _ | id
  · rfl
  · cases isText
  · cases isText
  have isId : workflow.identText? ident = some id := Option.some.inj isText
  obtain ⟨entry, isEntry, reads⟩ := written.exists_nodeEntry isNode
  have ofDefault : workflow.defaultPortOf? node = value.defaultPort := by
    rw [defaultPortOf?, isNode, Option.bind_some]
  unfold exitThrough? Document.exitOf?
  dsimp only
  rw [written.lookupPort?_eq isId, isEntry, Option.bind_some, ofDefault]
  cases found : document.portOf? id with
  | none =>
      have noDefault : entry.defaultPort ≠ some id := by
        intro isDefault
        obtain ⟨_, _, _, isPort, _⟩ := written.exists_defaultPort _ reads isDefault
        cases found.symm.trans isPort
      rw [if_neg noDefault, Option.map_none, ite_self]
  | some port =>
      have isDefault := written.defaultPort_eq_some_iff reads found
      rw [← written.findPort?_eq] at found
      obtain ⟨stored, isPort, ofPort⟩ := (written.findPort?_eq_some id port).mp found
      have isOwn := written.own_iff isEntry isPort ofPort
      by_cases own : stored.node = node
      · by_cases default : entry.defaultPort = some id
        · simp [isPort, own, isDefault.mpr default, default]
        · have listed : (entry.ports.any fun port => port.id == id) = true := by
            simpa using isOwn.mp own
          simp [isPort, own, mt isDefault.mp default, default, listed]
      · have noDefault : entry.defaultPort ≠ some id := by
          intro isEntryDefault
          obtain ⟨_, _, isStored, _, isOther, ofNode⟩ :=
            written.exists_defaultPort _ reads isEntryDefault
          cases isStored.symm.trans (isDefault.mpr isEntryDefault)
          cases isPort.symm.trans isOther
          exact own ofNode
        have notListed : (entry.ports.any fun port => port.id == id) = false := by
          simpa using mt isOwn.mpr own
        simp [isPort, own, noDefault, notListed]

theorem resolve_eq {entry : EdgeEntry} {edge : Edge} (reads : workflow.Reads entry edge) :
    workflow.resolve edge = document.resolve entry := by
  unfold Workflow.resolve Document.resolve targetNode? origin?
  rw [written.lookupNode?_eq reads.targetNode, written.isEntrypoint_eq reads.sourceNode,
    written.lookupTrigger?_eq reads.sourceNode, written.lookupNode?_eq reads.sourceNode]
  cases document.nodeOf? entry.targetNode with
  | none => rfl
  | some target =>
      by_cases isEntry : document.entrypoint = some entry.sourceNode
      · simp only [isEntry, decide_true, if_true]
      · simp only [isEntry, decide_false, Bool.false_eq_true, if_false]
        cases document.triggerOf? entry.sourceNode with
        | some trigger => rfl
        | none =>
            cases found : document.nodeOf? entry.sourceNode with
            | none => rfl
            | some node =>
                have declared := written.lookupNode?_eq reads.sourceNode
                rw [found] at declared
                obtain ⟨value, isNode, _⟩ := written.coherent.nodeStored declared
                have sameExit := written.exitThrough?_eq isNode reads.sourcePort
                cases exits : document.exitOf? node entry.sourcePort <;>
                  simp only [Option.map_some, sameExit, exits]

end Written

/-! ### Loading -/

/-- All entries are numbered in the order in which they are written. -/
structure Numbered (workflow : Workflow) (document : Document) : Prop where
  triggers : workflow.triggers.ids = (List.range document.triggers.length).map TriggerId.mk
  nodes : workflow.nodes.ids = (List.range document.nodes.length).map NodeId.mk
  ports : workflow.ports.ids = (List.range document.portEntries.length).map PortId.mk
  edges : workflow.edges.ids = (List.range document.edges.length).map EdgeId.mk

/-- A workflow answers as the document does, gone through entry by entry. -/
structure Answers (workflow : Workflow) (document : Document) : Prop where
  findNode? : ∀ id node, workflow.findNode? id = some node ↔
    ∃ entry, document.nodes[node.number]? = some entry ∧ entry.id = id
  findTrigger? : ∀ id trigger, workflow.findTrigger? id = some trigger ↔
    ∃ entry, document.triggers[trigger.number]? = some entry ∧ entry.id = id
  findPort? : ∀ id port, workflow.findPort? id = some port ↔
    ∃ stored entry, workflow.port? port = some stored ∧
      document.portEntries[port.number]? = some (stored.node, entry) ∧ entry.id = id
  resolveEdge : ∀ edge, workflow.resolveEdge edge =
    ((document.edges[edge.number]?).map document.resolve).getD (.error .unknownEdge)

namespace Written

variable (written : workflow.Written document)
include written

theorem numbered : workflow.Numbered document where
  triggers := by
    rw [Arena.ids_eq (Nat.le_of_lt written.triggersFit), written.triggers.length_eq]
    rfl
  nodes := by
    rw [Arena.ids_eq (Nat.le_of_lt written.coherent.nodesFit), ← document.nodes.length_zipIdx,
      written.nodes.length_eq]
    rfl
  ports := by
    rw [Arena.ids_eq (Nat.le_of_lt written.coherent.portsFit), written.ports.length_eq]
    rfl
  edges := by
    rw [Arena.ids_eq (Nat.le_of_lt written.coherent.edgesFit), written.edges.length_eq]
    rfl

theorem resolveEdge_eq (edge : EdgeId) : workflow.resolveEdge edge =
    ((document.edges[edge.number]?).map document.resolve).getD (.error .unknownEdge) := by
  have atPlace : Option.Rel workflow.Reads document.edges[edge.number]? (workflow.edge? edge) := by
    rw [edge?, Arena.get?, ← Array.getElem?_toList]
    exact rel_getElem? written.edges edge.number
  unfold resolveEdge
  rcases rel_cases atPlace with ⟨isNone, alsoNone⟩ | ⟨entry, stored, isEntry, isStored, reads⟩
  · rw [isNone, alsoNone]
    rfl
  · rw [isEntry, isStored]
    exact written.resolve_eq reads

theorem answers : workflow.Answers document where
  findNode? := written.findNode?_eq_some
  findTrigger? := written.findTrigger?_eq_some
  findPort? := by
    intro id port
    rw [written.findPort?_eq_some]
    constructor
    · rintro ⟨stored, isPort, isText⟩
      obtain ⟨⟨node, entry⟩, atPlace, sameNode, sameId⟩ :=
        (written.exists_portEntry_iff port fun node other => node = stored.node ∧ other = id).mp
          ⟨stored, isPort, id, isText, rfl, rfl⟩
      cases sameNode
      exact ⟨stored, entry, isPort, atPlace, sameId⟩
    · rintro ⟨stored, entry, isPort, atPlace, rfl⟩
      obtain ⟨again, isAgain, _, isText, rfl⟩ :=
        (written.exists_portEntry_iff port fun _ other => other = entry.id).mpr
          ⟨_, atPlace, rfl⟩
      exact ⟨again, isAgain, isText⟩
  resolveEdge := written.resolveEdge_eq

end Written

end Workflow

/-- Loading is faithful. An accepted document reads back entry by entry, all entries are numbered
as they are written, and lookups and resolved edges are those of the document itself, on its raw
ids. -/
theorem load_is_faithful {document : Document} {workflow : Workflow}
    (loaded : Workflow.load document = .ok workflow) :
    workflow.ReadsBack document ∧ workflow.Numbered document ∧ workflow.Answers document := by
  have written := Workflow.written_of_load loaded
  exact ⟨written.toReadsBack, written.numbered, written.answers⟩

def sharedIds : Document :=
  { entrypoint := some "a"
    triggers := [{ id := "start" }]
    nodes :=
      [{ id := "a", ports := [{ id := "b", name := "on" }, { id := "out", name := "out" }],
          defaultPort := some "b" },
        { id := "b", ports := [{ id := "a", name := "back" }] }]
    edges :=
      [{ id := "b", sourceNode := "a", sourcePort := some "out", targetNode := "b" },
        { id := "a", sourceNode := "b", sourcePort := some "a", targetNode := "a" },
        { id := "start", sourceNode := "start", sourcePort := some "b", targetNode := "b" },
        { id := "on", sourceNode := "b", sourcePort := some "out", targetNode := "a" }] }

/-- Each of the ids is told apart by what it is looked up as. -/
theorem load_is_faithful_sharedIds :
    ∃ workflow, Workflow.load sharedIds = .ok workflow ∧ workflow.ReadsBack sharedIds ∧
      workflow.findNode? "b" = some ⟨1⟩ ∧ workflow.findPort? "b" = some ⟨0⟩ ∧
      workflow.findTrigger? "a" = none ∧
      workflow.resolveEdge ⟨0⟩ = .ok { source := none, target := ⟨1⟩ } ∧
      workflow.resolveEdge ⟨1⟩ = .ok { source := some (.port ⟨1⟩ ⟨2⟩), target := ⟨0⟩ } ∧
      workflow.resolveEdge ⟨2⟩ = .ok { source := some (.trigger ⟨0⟩), target := ⟨1⟩ } ∧
      workflow.resolveEdge ⟨3⟩ = .error .unknownSourcePort := by
  have evaluated : ((Workflow.load sharedIds).toOption.map fun workflow =>
      (workflow.findPort? "b", workflow.findTrigger? "a")) = some (some ⟨0⟩, none) := by
    decide +kernel
  obtain ⟨workflow, loaded, views⟩ := Workflow.exists_load_of_map_toOption evaluated
  simp only [Prod.mk.injEq] at views
  obtain ⟨isPort, noTrigger⟩ := views
  obtain ⟨readsBack, _, answers⟩ := load_is_faithful loaded
  have isNode : workflow.findNode? "b" = some ⟨1⟩ := (answers.findNode? "b" ⟨1⟩).mpr ⟨_, rfl, rfl⟩
  exact ⟨workflow, loaded, readsBack, isNode, isPort, noTrigger,
    (answers.resolveEdge ⟨0⟩).trans (by decide +kernel),
    (answers.resolveEdge ⟨1⟩).trans (by decide +kernel),
    (answers.resolveEdge ⟨2⟩).trans (by decide +kernel),
    (answers.resolveEdge ⟨3⟩).trans (by decide +kernel)⟩

end FlowGraph
