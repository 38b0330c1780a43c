import FlowGraph.Proofs.ArenaIds
import FlowGraph.Proofs.Interning
import FlowGraph.Workflow.Adjacency
import FlowGraph.Workflow.Loading

/-!
What holds of every loaded workflow: each declaration is found under its own ident,
which is that of an interned text, and the ports of a node are its own. No entry that is
added breaks this, whether it is accepted or refused halfway.
-/

namespace FlowGraph.Workflow

def Owns (workflow : Workflow) (node : NodeId) (port : PortId) : Prop :=
  ∃ entry, workflow.port? port = some entry ∧ entry.node = node

def Mentions (workflow : Workflow) (ident : IdentId) : Prop :=
  workflow.declares ident = true ∨ (workflow.lookupPort? ident).isSome = true ∨
    workflow.entrypoint = some ident

/-- The tables and the stored entries agree, and no arena has run out of ids. -/
structure Coherent (workflow : Workflow) : Prop where
  nodesFit : workflow.nodes.size < UInt16.size
  portsFit : workflow.ports.size < UInt16.size
  edgesFit : workflow.edges.size < UInt32.size
  nodeDeclared : ∀ {node entry}, workflow.node? node = some entry →
    workflow.lookupNode? entry.ident = some node
  nodeStored : ∀ {ident node}, workflow.lookupNode? ident = some node →
    ∃ entry, workflow.node? node = some entry ∧ entry.ident = ident
  portDeclared : ∀ {port entry}, workflow.port? port = some entry →
    workflow.lookupPort? entry.ident = some port
  portStored : ∀ {ident port}, workflow.lookupPort? ident = some port →
    ∃ entry, workflow.port? port = some entry ∧ entry.ident = ident
  portsOwned : ∀ {node entry port}, workflow.node? node = some entry → port ∈ entry.ports →
    workflow.Owns node port
  triggersExist : ∀ {ident trigger}, workflow.lookupTrigger? ident = some trigger →
    workflow.hasTriggers = true
  triggerNoNode : ∀ {ident trigger}, workflow.lookupTrigger? ident = some trigger →
    workflow.lookupNode? ident = none
  identsLawful : workflow.idents.Lawful
  mentionsInterned : ∀ {ident}, workflow.Mentions ident → ident.number < workflow.idents.size

theorem Coherent.ident_eq_of_lookupNode? {workflow : Workflow} (coherent : workflow.Coherent)
    {left right : IdentId} {node : NodeId} (ofLeft : workflow.lookupNode? left = some node)
    (ofRight : workflow.lookupNode? right = some node) : left = right := by
  obtain ⟨entry, stored, rfl⟩ := coherent.nodeStored ofLeft
  obtain ⟨other, alsoStored, rfl⟩ := coherent.nodeStored ofRight
  cases stored.symm.trans alsoStored
  rfl

theorem getElem?_insert_ident {Id : Type} (table : IdentTable Id) (ident other : IdentId)
    (id : Id) :
    (table.insert ident.number id)[other.number]? =
      if ident = other then some id else table[other.number]? := by
  rw [Std.TreeMap.getElem?_insert]
  by_cases same : ident = other
  · rw [if_pos same, if_pos (Nat.compare_eq_eq.mpr (congrArg _ same))]
  · have different : compare ident.number other.number ≠ .eq := by
      intro equal
      have numbers : ident.number = other.number := Nat.compare_eq_eq.mp equal
      exact same (by cases ident; cases other; cases numbers; rfl)
    rw [if_neg same, if_neg different]

/-- A workflow that has grown into another one: coherent if it was before, and with
every stored port and every interned text still in place. No edge has been added. -/
structure Extends (before after : Workflow) : Prop where
  coherent : before.Coherent → after.Coherent
  owns : ∀ {node port}, before.Owns node port → after.Owns node port
  grown : before.idents.Grown after.idents
  edges : after.edges = before.edges

theorem Extends.refl (workflow : Workflow) : Extends workflow workflow :=
  ⟨fun coherent => coherent, fun owns => owns, .refl _, rfl⟩

theorem Extends.trans {first second third : Workflow} (before : Extends first second)
    (after : Extends second third) : Extends first third :=
  ⟨fun coherent => after.coherent (before.coherent coherent),
    fun owns => after.owns (before.owns owns), before.grown.trans after.grown,
    after.edges.trans before.edges⟩

/-! ### Interning -/

structure Interns (before after : Workflow) : Prop extends Extends before after where
  rest : after = { before with idents := after.idents }

theorem Interns.trans {first second third : Workflow} (before : Interns first second)
    (after : Interns second third) : Interns first third :=
  ⟨before.toExtends.trans after.toExtends, by rw [after.rest, before.rest]⟩

private theorem extends_setStrings {workflow : Workflow} {idents : Interner UInt32.size UInt64.size}
    (names : Interner UInt16.size UInt32.size) (grown : workflow.idents.Grown idents)
    (lawful : workflow.idents.Lawful → idents.Lawful) :
    Extends workflow { workflow with idents := idents, names := names } where
  coherent := fun coherent =>
    ⟨coherent.nodesFit, coherent.portsFit, coherent.edgesFit, coherent.nodeDeclared,
      coherent.nodeStored, coherent.portDeclared, coherent.portStored, coherent.portsOwned,
      coherent.triggersExist, coherent.triggerNoNode, lawful coherent.identsLawful,
      fun mentioned => Nat.lt_of_lt_of_le (coherent.mentionsInterned mentioned) grown.size_le⟩
  owns := fun owns => owns
  grown := grown
  edges := rfl

theorem interns_internIdent {workflow next : Workflow} {id : String}
    {result : Except LoadError IdentId} (interned : workflow.internIdent id = (next, result)) :
    Interns workflow next := by
  rcases stored : workflow.idents.intern id with ⟨idents, outcome⟩
  unfold internIdent at interned
  rw [stored] at interned
  cases interned
  exact ⟨extends_setStrings workflow.names (Interner.grown_intern stored)
    fun lawful => Interner.lawful_intern lawful stored, rfl⟩

theorem interns_internIdent? {workflow next : Workflow} {id : Option String}
    {result : Except LoadError (Option IdentId)}
    (interned : workflow.internIdent? id = (next, result)) : Interns workflow next := by
  cases id with
  | none =>
      cases interned
      exact ⟨Extends.refl _, rfl⟩
  | some id =>
      rcases stored : workflow.internIdent id with ⟨known, outcome⟩
      simp only [internIdent?, stored] at interned
      cases interned
      exact interns_internIdent stored

theorem internName_eq {workflow next : Workflow} {text : String} {result : Except LoadError NameId}
    (named : workflow.internName text = (next, result)) :
    next = { workflow with names := next.names } := by
  cases named
  rfl

theorem extends_internName {workflow next : Workflow} {text : String}
    {result : Except LoadError NameId} (named : workflow.internName text = (next, result)) :
    Extends workflow next := by
  rw [internName_eq named]
  exact extends_setStrings next.names (.refl _) fun lawful => lawful

theorem identText?_eq_some {workflow : Workflow} {ident : IdentId} {text : String} :
    workflow.identText? ident = some text ↔
      workflow.idents.strings[ident.number]? = some text := by
  rw [identText?, Interner.toOption_get]

theorem Coherent.ident_eq_of_identText? {workflow : Workflow} (coherent : workflow.Coherent)
    {left right : IdentId} {text : String} (ofLeft : workflow.identText? left = some text)
    (ofRight : workflow.identText? right = some text) : left = right := by
  have numbers := coherent.identsLawful.key_eq (identText?_eq_some.mp ofLeft)
    (identText?_eq_some.mp ofRight)
  cases left
  cases right
  exact congrArg IdentId.mk numbers

theorem lt_size_of_identText? {workflow : Workflow} {ident : IdentId} {text : String}
    (isText : workflow.identText? ident = some text) : ident.number < workflow.idents.size := by
  rw [← Interner.size_strings]
  exact (Array.getElem?_eq_some_iff.mp (identText?_eq_some.mp isText)).choose

theorem identText?_of_grown {before after : Workflow} (grown : before.idents.Grown after.idents)
    {ident : IdentId} {text : String} (isText : before.identText? ident = some text) :
    after.identText? ident = some text :=
  identText?_eq_some.mpr (grown _ _ (identText?_eq_some.mp isText))

theorem map_identText?_of_grown {before after : Workflow}
    (grown : before.idents.Grown after.idents) {ident : Option IdentId} {text : Option String}
    (isText : ident.map before.identText? = text.map some) :
    ident.map after.identText? = text.map some := by
  cases ident with
  | none => exact isText
  | some ident =>
      cases text with
      | none => cases isText
      | some text =>
          exact congrArg some (identText?_of_grown grown (Option.some.inj isText))

theorem identText?_internIdent {workflow next : Workflow} {id : String} {ident : IdentId}
    (coherent : workflow.Coherent) (interned : workflow.internIdent id = (next, .ok ident)) :
    next.identText? ident = some id := by
  rcases stored : workflow.idents.intern id with ⟨idents, outcome⟩
  unfold internIdent at interned
  rw [stored] at interned
  cases outcome with
  | error error => cases interned
  | ok key =>
      cases interned
      exact identText?_eq_some.mpr (Interner.getElem?_intern coherent.identsLawful stored)

private theorem lt_size_of_interned {workflow known labelled : Workflow} {id text : String}
    {ident : IdentId} {result : Except LoadError NameId} (coherent : workflow.Coherent)
    (interned : workflow.internIdent id = (known, .ok ident))
    (named : known.internName text = (labelled, result)) :
    ident.number < labelled.idents.size := by
  have isText := identText?_internIdent coherent interned
  exact lt_size_of_identText? (identText?_of_grown (extends_internName named).grown isText)

theorem map_identText?_internIdent? {workflow next : Workflow} {id : Option String}
    {ident : Option IdentId} (coherent : workflow.Coherent)
    (interned : workflow.internIdent? id = (next, .ok ident)) :
    ident.map next.identText? = id.map some := by
  cases id with
  | none =>
      cases interned
      rfl
  | some id =>
      rcases stored : workflow.internIdent id with ⟨known, error | key⟩
      · simp only [internIdent?, stored] at interned
        cases interned
      · simp only [internIdent?, stored] at interned
        cases interned
        exact congrArg some (identText?_internIdent coherent stored)

theorem lookup_eq_none_of_not_declares {workflow : Workflow} {ident : IdentId}
    (notDeclared : ¬ workflow.declares ident = true) :
    workflow.lookupTrigger? ident = none ∧ workflow.lookupNode? ident = none := by
  rw [declares, Bool.or_eq_true, not_or] at notDeclared
  exact notDeclared.imp Option.not_isSome_iff_eq_none.mp Option.not_isSome_iff_eq_none.mp

/-! ### Triggers -/

theorem extends_pushTrigger {workflow : Workflow} {trigger : Trigger}
    (known : trigger.ident.number < workflow.idents.size)
    (noNode : workflow.lookupNode? trigger.ident = none) :
    Extends workflow (workflow.pushTrigger trigger) where
  coherent := by
    intro coherent
    have stored : (workflow.pushTrigger trigger).hasTriggers = true := by
      change (!(workflow.triggers.values.push trigger).isEmpty) = true
      rw [Array.isEmpty_push, Bool.not_false]
    have lookup : ∀ ident, (workflow.pushTrigger trigger).lookupTrigger? ident =
        if trigger.ident = ident then some workflow.triggers.nextId
        else workflow.lookupTrigger? ident :=
      fun ident =>
        getElem?_insert_ident workflow.triggerTable trigger.ident ident workflow.triggers.nextId
    exact
      { coherent with
        nodeDeclared := coherent.nodeDeclared
        nodeStored := coherent.nodeStored
        portDeclared := coherent.portDeclared
        portStored := coherent.portStored
        portsOwned := coherent.portsOwned
        triggersExist := fun _ => stored
        triggerNoNode := by
          intro ident id found
          rw [lookup] at found
          split at found
          · rename_i same
            exact same ▸ noNode
          · exact coherent.triggerNoNode found
        mentionsInterned := by
          intro ident mentioned
          by_cases same : trigger.ident = ident
          · exact same ▸ known
          · rw [Mentions, declares, lookup, if_neg same] at mentioned
            exact coherent.mentionsInterned mentioned }
  owns := fun owns => owns
  grown := .refl _
  edges := rfl

theorem extends_addTrigger {workflow : Workflow} (coherent : workflow.Coherent)
    (entry : TriggerEntry) : Extends workflow (workflow.addTrigger entry).1 := by
  unfold addTrigger
  rcases interned : workflow.internIdent entry.id with ⟨known, error | ident⟩
  · exact (interns_internIdent interned).toExtends
  · dsimp only
    split
    · exact (interns_internIdent interned).toExtends
    · rename_i notDeclared
      rcases named : known.internName (entry.label.getD entry.id) with ⟨labelled, error | label⟩
      · exact (interns_internIdent interned).toExtends.trans (extends_internName named)
      · dsimp only
        have grown := (interns_internIdent interned).toExtends.trans (extends_internName named)
        split
        · exact grown
        · have noNode : labelled.lookupNode? ident = none := by
            rw [internName_eq named]
            exact (lookup_eq_none_of_not_declares notDeclared).2
          have isKnown := lt_size_of_interned coherent interned named
          exact grown.trans (extends_pushTrigger isKnown noNode)

/-! ### Ports -/

private theorem owns_pushPort_of_owns {workflow : Workflow} {node : NodeId} {port : PortId}
    (new : Port) (owns : workflow.Owns node port) : (workflow.pushPort new).Owns node port := by
  obtain ⟨entry, found, isNode⟩ := owns
  exact ⟨entry, Arena.get?_push_of_get? new found, isNode⟩

theorem extends_pushPort {workflow : Workflow} {port : Port}
    (known : port.ident.number < workflow.idents.size)
    (isNew : workflow.lookupPort? port.ident = none)
    (room : workflow.ports.size < EntryKind.port.capacity) :
    Extends workflow (workflow.pushPort port) where
  coherent := by
    intro coherent
    have lookup : ∀ ident, (workflow.pushPort port).lookupPort? ident =
        if port.ident = ident then some workflow.ports.nextId else workflow.lookupPort? ident :=
      fun ident => getElem?_insert_ident workflow.portTable port.ident ident workflow.ports.nextId
    exact
      { coherent with
        portsFit := by
          change (workflow.ports.push port).size < _
          rw [Arena.size_push]
          exact Nat.succ_lt_succ room
        portDeclared := by
          intro id entry found
          rcases Arena.get?_push_cases coherent.portsFit found with old | ⟨rfl, rfl⟩
          · have declared := coherent.portDeclared old
            have different : port.ident ≠ entry.ident := by
              intro same
              rw [same, declared] at isNew
              cases isNew
            rw [lookup, if_neg different, declared]
          · rw [lookup, if_pos rfl]
        portStored := by
          intro ident id found
          rw [lookup] at found
          split at found
          · rename_i same
            cases found
            exact ⟨port, Arena.get?_push_nextId _ coherent.portsFit, same⟩
          · obtain ⟨entry, stored, same⟩ := coherent.portStored found
            exact ⟨entry, Arena.get?_push_of_get? _ stored, same⟩
        portsOwned := fun found member =>
          owns_pushPort_of_owns port (coherent.portsOwned found member)
        mentionsInterned := by
          intro ident mentioned
          by_cases same : port.ident = ident
          · exact same ▸ known
          · rw [Mentions, lookup, if_neg same] at mentioned
            exact coherent.mentionsInterned mentioned }
  owns := owns_pushPort_of_owns port
  grown := .refl _
  edges := rfl

theorem addPort_spec {workflow next : Workflow} {node : NodeId} {entry : PortEntry}
    {result : Except LoadError PortId} (coherent : workflow.Coherent)
    (added : workflow.addPort node entry = (next, result)) :
    Extends workflow next ∧ ∀ port, result = .ok port → next.Owns node port := by
  unfold addPort at added
  rcases interned : workflow.internIdent entry.id with ⟨known, error | ident⟩
  · rw [interned] at added
    cases added
    exact ⟨(interns_internIdent interned).toExtends, nofun⟩
  · rw [interned] at added
    dsimp only at added
    split at added
    · cases added
      exact ⟨(interns_internIdent interned).toExtends, nofun⟩
    · rename_i notKnown
      rcases named : known.internName entry.name with ⟨labelled, error | name⟩
      · rw [named] at added
        cases added
        exact ⟨(interns_internIdent interned).toExtends.trans (extends_internName named), nofun⟩
      · rw [named] at added
        dsimp only at added
        have grown := (interns_internIdent interned).toExtends.trans (extends_internName named)
        split at added
        · cases added
          exact ⟨grown, nofun⟩
        · rename_i room
          cases added
          have isNew : labelled.lookupPort? ident = none := by
            rw [internName_eq named]
            exact Option.not_isSome_iff_eq_none.mp notKnown
          have isKnown := lt_size_of_interned coherent interned named
          refine ⟨grown.trans (extends_pushPort isKnown isNew (Nat.lt_of_not_le room)), ?_⟩
          intro port isPort
          cases isPort
          exact ⟨_, Arena.get?_push_nextId _ (grown.coherent coherent).portsFit, rfl⟩

theorem addPorts_spec {workflow next : Workflow} {node : NodeId} {ports : Array PortId}
    {entries : List PortEntry} {result : Except LoadError (List PortId)}
    (coherent : workflow.Coherent) (owned : ∀ port ∈ ports, workflow.Owns node port)
    (added : workflow.addPorts node ports entries = (next, result)) :
    Extends workflow next ∧
      ∀ all, result = .ok all → ∀ port ∈ all, next.Owns node port := by
  induction entries generalizing workflow ports with
  | nil =>
      cases added
      refine ⟨Extends.refl _, ?_⟩
      intro all isAll port member
      cases isAll
      exact owned port (Array.mem_toList_iff.mp member)
  | cons entry rest ih =>
      rw [addPorts] at added
      rcases first : workflow.addPort node entry with ⟨known, error | port⟩
      · rw [first] at added
        cases added
        exact ⟨(addPort_spec coherent first).1, nofun⟩
      · rw [first] at added
        obtain ⟨grown, ownsPort⟩ := addPort_spec coherent first
        have ownedNow : ∀ other ∈ ports.push port, known.Owns node other := by
          intro other member
          rcases Array.mem_push.mp member with old | rfl
          · exact grown.owns (owned other old)
          · exact ownsPort other rfl
        obtain ⟨grownOn, allOwned⟩ := ih (grown.coherent coherent) ownedNow added
        exact ⟨grown.trans grownOn, allOwned⟩

/-! ### Nodes -/

theorem extends_pushNode {workflow : Workflow} {ident : IdentId} (label : NameId)
    (known : ident.number < workflow.idents.size)
    (noTrigger : workflow.lookupTrigger? ident = none) (isNew : workflow.lookupNode? ident = none)
    (room : workflow.nodes.size < EntryKind.node.capacity) :
    Extends workflow (workflow.pushNode ident label) where
  coherent := by
    intro coherent
    have lookup : ∀ other, (workflow.pushNode ident label).lookupNode? other =
        if ident = other then some workflow.nodes.nextId else workflow.lookupNode? other :=
      fun other => getElem?_insert_ident workflow.nodeTable ident other workflow.nodes.nextId
    exact
      { coherent with
        nodesFit := by
          change (workflow.nodes.push _).size < _
          rw [Arena.size_push]
          exact Nat.succ_lt_succ room
        nodeDeclared := by
          intro id entry found
          rcases Arena.get?_push_cases coherent.nodesFit found with old | ⟨rfl, rfl⟩
          · have declared := coherent.nodeDeclared old
            have different : ident ≠ entry.ident := by
              intro same
              rw [same, declared] at isNew
              cases isNew
            rw [lookup, if_neg different, declared]
          · rw [lookup, if_pos rfl]
        nodeStored := by
          intro other id found
          rw [lookup] at found
          split at found
          · rename_i same
            cases found
            exact ⟨_, Arena.get?_push_nextId _ coherent.nodesFit, same⟩
          · obtain ⟨entry, stored, same⟩ := coherent.nodeStored found
            exact ⟨entry, Arena.get?_push_of_get? _ stored, same⟩
        portDeclared := coherent.portDeclared
        portStored := coherent.portStored
        portsOwned := by
          intro id entry port found member
          rcases Arena.get?_push_cases coherent.nodesFit found with old | ⟨_, rfl⟩
          · exact coherent.portsOwned old member
          · cases member
        triggersExist := coherent.triggersExist
        triggerNoNode := by
          intro other trigger found
          have different : ident ≠ other := by
            intro same
            have declared : workflow.lookupTrigger? other = some trigger := found
            rw [← same, noTrigger] at declared
            cases declared
          rw [lookup, if_neg different]
          exact coherent.triggerNoNode found
        mentionsInterned := by
          intro other mentioned
          by_cases same : ident = other
          · exact same ▸ known
          · rw [Mentions, declares, lookup, if_neg same] at mentioned
            exact coherent.mentionsInterned mentioned }
  owns := fun owns => owns
  grown := .refl _
  edges := rfl

private theorem extends_setPorts {workflow : Workflow} {id : NodeId} {ports : List PortId}
    (defaultPort : Option PortId) (owned : ∀ port ∈ ports, workflow.Owns id port) :
    Extends workflow (workflow.setPorts id ports defaultPort) := by
  unfold setPorts
  split
  · exact Extends.refl workflow
  · rename_i node isNode
    refine ⟨?_, fun owns => owns, .refl _, rfl⟩
    intro coherent
    exact
      { coherent with
        nodesFit := by
          rw [Arena.size_set]
          exact coherent.nodesFit
        nodeDeclared := by
          intro other entry found
          rcases Arena.get?_set_cases found with ⟨rfl, rfl⟩ | old
          · have declared := coherent.nodeDeclared isNode
            exact declared
          · exact coherent.nodeDeclared old
        nodeStored := by
          intro ident other found
          obtain ⟨entry, stored, same⟩ := coherent.nodeStored found
          by_cases isSame : other = id
          · cases isSame
            cases isNode.symm.trans stored
            exact ⟨_, Arena.get?_set_self _ isNode, same⟩
          · exact ⟨entry, (Arena.get?_set_of_ne _ isSame).trans stored, same⟩
        portDeclared := coherent.portDeclared
        portStored := coherent.portStored
        portsOwned := by
          intro other entry port found member
          rcases Arena.get?_set_cases found with ⟨rfl, rfl⟩ | old
          · exact owned port member
          · exact coherent.portsOwned old member
        triggersExist := coherent.triggersExist
        triggerNoNode := coherent.triggerNoNode
        mentionsInterned := coherent.mentionsInterned }

private theorem extends_completeNode {workflow : Workflow} (coherent : workflow.Coherent)
    (id : NodeId) (entry : NodeEntry) : Extends workflow (workflow.completeNode id entry).1 := by
  have noneYet : ∀ port ∈ (#[] : Array PortId), workflow.Owns id port := by
    intro port member
    exact absurd member (Array.not_mem_empty port)
  unfold completeNode
  rcases added : workflow.addPorts id #[] entry.ports with ⟨known, error | ports⟩
  · exact (addPorts_spec coherent noneYet added).1
  · obtain ⟨grown, owned⟩ := addPorts_spec coherent noneYet added
    dsimp only
    split
    · exact grown
    · exact grown.trans (extends_setPorts _ (owned ports rfl))

/-- An ident that was just interned and is not declared can be that of a new node. -/
theorem extends_pushNode_of_internIdent {workflow known labelled : Workflow} {id text : String}
    {ident : IdentId} {label : NameId} (coherent : workflow.Coherent)
    (interned : workflow.internIdent id = (known, .ok ident))
    (named : known.internName text = (labelled, .ok label))
    (notDeclared : ¬ known.declares ident = true)
    (room : ¬ EntryKind.node.capacity ≤ labelled.nodes.size) :
    Extends workflow (labelled.pushNode ident label) := by
  have undeclared : labelled.lookupTrigger? ident = none ∧ labelled.lookupNode? ident = none := by
    rw [internName_eq named]
    exact lookup_eq_none_of_not_declares notDeclared
  have isKnown := lt_size_of_interned coherent interned named
  exact ((interns_internIdent interned).toExtends.trans (extends_internName named)).trans
    (extends_pushNode label isKnown undeclared.1 undeclared.2 (Nat.lt_of_not_le room))

theorem extends_addNode {workflow : Workflow} (coherent : workflow.Coherent) (entry : NodeEntry) :
    Extends workflow (workflow.addNode entry).1 := by
  unfold addNode
  rcases interned : workflow.internIdent entry.id with ⟨known, error | ident⟩
  · exact (interns_internIdent interned).toExtends
  · dsimp only
    split
    · exact (interns_internIdent interned).toExtends
    · rename_i notDeclared
      rcases named : known.internName (entry.label.getD entry.id) with ⟨labelled, error | label⟩
      · exact (interns_internIdent interned).toExtends.trans (extends_internName named)
      · dsimp only
        have grown := (interns_internIdent interned).toExtends.trans (extends_internName named)
        split
        · exact grown
        · rename_i room
          have pushed := extends_pushNode_of_internIdent coherent interned named notDeclared room
          exact pushed.trans (extends_completeNode (pushed.coherent coherent) _ entry)

/-! ### The beginning -/

theorem coherent_empty : empty.Coherent where
  nodesFit := by decide
  portsFit := by decide
  edgesFit := by decide
  nodeDeclared := by
    intro node entry found
    cases found
  nodeStored := by
    intro ident node found
    cases found
  portDeclared := by
    intro port entry found
    cases found
  portStored := by
    intro ident port found
    cases found
  portsOwned := by
    intro node entry port found
    cases found
  triggersExist := by
    intro ident trigger found
    cases found
  triggerNoNode := by
    intro ident trigger found
    cases found
  identsLawful := Interner.lawful_empty
  mentionsInterned := by
    rintro ident (declared | isPort | entrance)
    · cases declared
    · cases isPort
    · cases entrance

private theorem coherent_setEntrypoint {workflow : Workflow} (coherent : workflow.Coherent)
    {ident : IdentId} (known : ident.number < workflow.idents.size) :
    Coherent { workflow with entrypoint := some ident } where
  nodesFit := coherent.nodesFit
  portsFit := coherent.portsFit
  edgesFit := coherent.edgesFit
  nodeDeclared := coherent.nodeDeclared
  nodeStored := coherent.nodeStored
  portDeclared := coherent.portDeclared
  portStored := coherent.portStored
  portsOwned := coherent.portsOwned
  triggersExist := coherent.triggersExist
  triggerNoNode := coherent.triggerNoNode
  identsLawful := coherent.identsLawful
  mentionsInterned := by
    rintro other (declared | isPort | entrance)
    · exact coherent.mentionsInterned (Or.inl declared)
    · exact coherent.mentionsInterned (Or.inr (Or.inl isPort))
    · cases entrance
      exact known

theorem coherent_ofEntrypoint {entrypoint : Option String} {workflow : Workflow}
    (made : ofEntrypoint entrypoint = .ok workflow) : workflow.Coherent := by
  cases entrypoint with
  | none =>
      cases made
      exact coherent_empty
  | some id =>
      unfold ofEntrypoint at made
      rcases interned : empty.internIdent id with ⟨known, error | ident⟩
      · simp only [interned] at made
        cases made
      · simp only [interned] at made
        cases made
        have isText := identText?_internIdent coherent_empty interned
        have coherent := (interns_internIdent interned).coherent coherent_empty
        exact coherent_setEntrypoint coherent (lt_size_of_identText? isText)

theorem ofEntrypoint_eq {entrypoint : Option String} {workflow : Workflow}
    (made : ofEntrypoint entrypoint = .ok workflow) :
    workflow = { empty with idents := workflow.idents, entrypoint := workflow.entrypoint } := by
  cases entrypoint with
  | none =>
      cases made
      rfl
  | some id =>
      unfold ofEntrypoint at made
      rcases interned : empty.internIdent id with ⟨known, error | ident⟩
      · simp only [interned] at made
        cases made
      · simp only [interned] at made
        cases made
        rw [(interns_internIdent interned).rest]

end FlowGraph.Workflow
