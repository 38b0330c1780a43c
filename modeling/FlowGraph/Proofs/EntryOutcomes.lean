import FlowGraph.Proofs.Registration

/-!
What becomes of a list of entries. Triggers and nodes follow the same laws: an entry for which
there is room is answered as the registered ids have it, one that is accepted has all its texts
interned, and one that is refused leaves no other texts behind than its own.
-/

namespace FlowGraph

namespace Interner

variable {keyLimit offsetLimit : Nat} {interner next : Interner keyLimit offsetLimit}

private theorem strings_intern_subset {text : String} {result : Except InternError Nat}
    (interned : interner.intern text = (next, result)) :
    next.strings.toList ⊆ interner.strings.toList ++ [text] := by
  obtain ⟨_, _, rfl, _⟩ | ⟨_, ⟨rfl, _⟩ | ⟨_, _, rfl, _⟩⟩ := intern_cases interned
  · exact List.subset_append_left _ _
  · exact List.subset_append_left _ _
  · rw [strings_push, Array.toList_push]
    exact List.Subset.refl _

/-- Texts of a larger interner are all taken, as long as no others are there before. -/
theorem exists_internAll {large : Interner keyLimit offsetLimit} (lawful : interner.Lawful)
    (largeLawful : large.Lawful) (largeFits : large.byteSize < offsetLimit)
    (inside : interner.strings.toList ⊆ large.strings.toList) {texts : List String}
    (areLarge : texts ⊆ large.strings.toList) :
    ∃ next, interner.internAll texts = some next := by
  induction texts generalizing interner with
  | nil => exact ⟨interner, rfl⟩
  | cons text texts ih =>
      obtain ⟨isLarge, areRest⟩ := List.cons_subset.mp areLarge
      obtain ⟨known, key, first, stillInside⟩ :=
        exists_intern lawful largeLawful largeFits inside isLarge
      obtain ⟨next, rest⟩ := ih (lawful_intern lawful first) stillInside areRest
      exact ⟨next, internAll_cons_eq_some.mpr ⟨known, key, first, rest⟩⟩

end Interner

namespace Workflow

variable {workflow next : Workflow} {registry : Registry}

/-! ### Texts of accepted entries -/

structure Took (before : Workflow) (ids names : List String) (after : Workflow) : Prop where
  ids : before.idents.internAll ids = some after.idents
  names : before.names.internAll names = some after.names

namespace Took

variable {first second third : Workflow} {ids names otherIds otherNames : List String}

theorem trans (before : Took first ids names second)
    (after : Took second otherIds otherNames third) :
    Took first (ids ++ otherIds) (names ++ otherNames) third :=
  ⟨Interner.internAll_append_eq_some.mpr ⟨_, before.ids, after.ids⟩,
    Interner.internAll_append_eq_some.mpr ⟨_, before.names, after.names⟩⟩

private theorem takesTexts (took : Took first ids names second) : first.TakesTexts ids names :=
  ⟨⟨_, took.ids⟩, _, took.names⟩

theorem rest (took : Took first ids names second)
    (takes : first.TakesTexts (ids ++ otherIds) (names ++ otherNames)) :
    second.TakesTexts otherIds otherNames := by
  obtain ⟨⟨idents, ofIds⟩, others, ofNames⟩ := takes
  obtain ⟨known, isKnown, moreIds⟩ := Interner.internAll_append_eq_some.mp ofIds
  obtain ⟨labelled, isLabelled, moreNames⟩ := Interner.internAll_append_eq_some.mp ofNames
  cases took.ids.symm.trans isKnown
  cases took.names.symm.trans isLabelled
  exact ⟨⟨idents, moreIds⟩, others, moreNames⟩

end Took

theorem took_internIdent {id : String} {ident : IdentId}
    (interned : workflow.internIdent id = (next, .ok ident)) : Took workflow [id] [] next := by
  obtain ⟨idents, ofId, rfl⟩ := internIdent_eq_ok_iff.mp interned
  exact ⟨Interner.internAll_cons_eq_some.mpr ⟨idents, _, ofId, rfl⟩, rfl⟩

private theorem took_internName {text : String} {name : NameId}
    (named : workflow.internName text = (next, .ok name)) : Took workflow [] [text] next := by
  obtain ⟨names, ofText, rfl⟩ := internName_eq_ok_iff.mp named
  exact ⟨rfl, Interner.internAll_cons_eq_some.mpr ⟨names, _, ofText, rfl⟩⟩

private theorem took_addTrigger {entry : TriggerEntry}
    (added : workflow.addTrigger entry = (next, .ok ())) :
    Took workflow [entry.id] [entry.label.getD entry.id] next := by
  obtain ⟨known, ident, labelled, label, interned, _, named, _, rfl⟩ := addTrigger_eq_ok added
  have took := (took_internIdent interned).trans (took_internName named)
  exact ⟨took.ids, took.names⟩

private theorem took_addPorts {node : NodeId} {ports : Array PortId} {entries : List PortEntry}
    {all : List PortId} (added : workflow.addPorts node ports entries = (next, .ok all)) :
    Took workflow (entries.map PortEntry.id) (entries.map PortEntry.name) next := by
  induction entries generalizing workflow ports with
  | nil =>
      cases added
      exact ⟨rfl, rfl⟩
  | cons entry rest ih =>
      rw [addPorts] at added
      rcases first : workflow.addPort node entry with ⟨known, error | port⟩
      · rw [first] at added
        cases added
      · rw [first] at added
        obtain ⟨known, ident, labelled, name, interned, _, named, _, _, rfl⟩ := addPort_eq_ok first
        have ofRest := ih added
        have tookRest : Took labelled (rest.map PortEntry.id) (rest.map PortEntry.name) next :=
          ⟨ofRest.ids, ofRest.names⟩
        exact ((took_internIdent interned).trans (took_internName named)).trans tookRest

private theorem took_addNode {entry : NodeEntry} (added : workflow.addNode entry = (next, .ok ())) :
    Took workflow entry.identTexts entry.nameTexts next := by
  obtain ⟨known, ident, labelled, label, listing, ports, defaultPort, interned, _, named, _,
    ofPorts, _, rfl⟩ := addNode_eq_ok added
  have tookPorts := took_addPorts ofPorts
  have sameTexts : (listing.setPorts labelled.nodes.nextId ports defaultPort).idents =
      listing.idents ∧ (listing.setPorts labelled.nodes.nextId ports defaultPort).names =
        listing.names := by
    unfold setPorts
    split <;> exact ⟨rfl, rfl⟩
  have tookRest : Took labelled (entry.ports.map PortEntry.id) (entry.ports.map PortEntry.name)
      (listing.setPorts labelled.nodes.nextId ports defaultPort) := by
    constructor
    · rw [sameTexts.1]
      exact tookPorts.ids
    · rw [sameTexts.2]
      exact tookPorts.names
  exact ((took_internIdent interned).trans (took_internName named)).trans tookRest

/-! ### Texts of all entries -/

structure TextsAmong (workflow : Workflow) (ids names : List String) : Prop where
  ids : workflow.idents.strings.toList ⊆ ids
  names : workflow.names.strings.toList ⊆ names

namespace TextsAmong

variable {ids names : List String}

theorem internIdent (among : workflow.TextsAmong ids names) {id : String} (present : id ∈ ids)
    {result : Except LoadError IdentId} (interned : workflow.internIdent id = (next, result)) :
    next.TextsAmong ids names := by
  rcases stored : workflow.idents.intern id with ⟨idents, outcome⟩
  unfold Workflow.internIdent at interned
  rw [stored] at interned
  cases interned
  exact ⟨List.Subset.trans (Interner.strings_intern_subset stored)
    (List.append_subset.mpr ⟨among.ids, by simpa using present⟩), among.names⟩

theorem internName (among : workflow.TextsAmong ids names) {text : String}
    (present : text ∈ names) {result : Except LoadError NameId}
    (named : workflow.internName text = (next, result)) : next.TextsAmong ids names := by
  rcases stored : workflow.names.intern text with ⟨others, outcome⟩
  unfold Workflow.internName at named
  rw [stored] at named
  cases named
  exact ⟨among.ids, List.Subset.trans (Interner.strings_intern_subset stored)
    (List.append_subset.mpr ⟨among.names, by simpa using present⟩)⟩

theorem addTrigger (among : workflow.TextsAmong ids names) {entry : TriggerEntry}
    (idPresent : entry.id ∈ ids) (namePresent : entry.label.getD entry.id ∈ names) :
    (workflow.addTrigger entry).1.TextsAmong ids names := by
  unfold Workflow.addTrigger
  rcases interned : workflow.internIdent entry.id with ⟨known, error | ident⟩
  · exact among.internIdent idPresent interned
  · have amongKnown := among.internIdent idPresent interned
    dsimp only
    split
    · exact amongKnown
    · rcases named : known.internName (entry.label.getD entry.id) with ⟨labelled, error | label⟩
      · exact amongKnown.internName namePresent named
      · have amongLabelled := amongKnown.internName namePresent named
        dsimp only
        split
        · exact amongLabelled
        · exact ⟨amongLabelled.ids, amongLabelled.names⟩

theorem addPort (among : workflow.TextsAmong ids names) {node : NodeId} {entry : PortEntry}
    (idPresent : entry.id ∈ ids) (namePresent : entry.name ∈ names)
    {result : Except LoadError PortId} (added : workflow.addPort node entry = (next, result)) :
    next.TextsAmong ids names := by
  unfold Workflow.addPort at added
  rcases interned : workflow.internIdent entry.id with ⟨known, error | ident⟩
  · rw [interned] at added
    cases added
    exact among.internIdent idPresent interned
  · have amongKnown := among.internIdent idPresent interned
    rw [interned] at added
    dsimp only at added
    split at added
    · cases added
      exact amongKnown
    · rcases named : known.internName entry.name with ⟨labelled, error | name⟩
      · rw [named] at added
        cases added
        exact amongKnown.internName namePresent named
      · have amongLabelled := amongKnown.internName namePresent named
        rw [named] at added
        dsimp only at added
        split at added
        · cases added
          exact amongLabelled
        · cases added
          exact ⟨amongLabelled.ids, amongLabelled.names⟩

theorem addPorts (among : workflow.TextsAmong ids names) (node : NodeId) (ports : Array PortId)
    {entries : List PortEntry} (idsPresent : entries.map PortEntry.id ⊆ ids)
    (namesPresent : entries.map PortEntry.name ⊆ names) :
    (workflow.addPorts node ports entries).1.TextsAmong ids names := by
  induction entries generalizing workflow ports with
  | nil => exact among
  | cons entry rest ih =>
      obtain ⟨idPresent, restIds⟩ := List.cons_subset.mp idsPresent
      obtain ⟨namePresent, restNames⟩ := List.cons_subset.mp namesPresent
      rw [Workflow.addPorts]
      rcases added : workflow.addPort node entry with ⟨known, error | port⟩
      · exact among.addPort idPresent namePresent added
      · exact ih (among.addPort idPresent namePresent added) _ restIds restNames

theorem addNode (among : workflow.TextsAmong ids names) {entry : NodeEntry}
    (idsPresent : entry.identTexts ⊆ ids) (namesPresent : entry.nameTexts ⊆ names) :
    (workflow.addNode entry).1.TextsAmong ids names := by
  obtain ⟨idPresent, portIds⟩ := List.cons_subset.mp idsPresent
  obtain ⟨namePresent, portNames⟩ := List.cons_subset.mp namesPresent
  unfold Workflow.addNode
  rcases interned : workflow.internIdent entry.id with ⟨known, error | ident⟩
  · exact among.internIdent idPresent interned
  · have amongKnown := among.internIdent idPresent interned
    dsimp only
    split
    · exact amongKnown
    · rcases named : known.internName (entry.label.getD entry.id) with ⟨labelled, error | label⟩
      · exact amongKnown.internName namePresent named
      · have amongLabelled := amongKnown.internName namePresent named
        dsimp only
        split
        · exact amongLabelled
        · have amongPushed : (labelled.pushNode ident label).TextsAmong ids names :=
            ⟨amongLabelled.ids, amongLabelled.names⟩
          have amongListing := amongPushed.addPorts labelled.nodes.nextId #[] portIds portNames
          unfold completeNode
          rcases added : (labelled.pushNode ident label).addPorts labelled.nodes.nextId #[]
            entry.ports with ⟨listing, error | all⟩
          · rw [added] at amongListing
            exact amongListing
          · rw [added] at amongListing
            dsimp only
            split
            · exact amongListing
            · unfold setPorts
              split
              · exact amongListing
              · exact ⟨amongListing.ids, amongListing.names⟩

end TextsAmong

/-! ### Laws of entries -/

/-- What holds of adding one entry. Its raw ids and its display texts are interned in their
order, and `room` tells whether the arenas have room for it. -/
structure EntryLaws {Entry : Type} (add : Workflow → Entry → Workflow × Except LoadError Unit)
    (take : Registry → Entry → Registry × Except LoadError Unit)
    (ids names : Entry → List String) (room : Registry → Entry → Prop) : Prop where
  follows : ∀ {workflow registry entry}, Registers workflow registry →
    TakesTexts workflow (ids entry) (names entry) → room registry entry →
      Registers (add workflow entry).1 (take registry entry).1 ∧
        (add workflow entry).2 = (take registry entry).2
  took : ∀ {workflow next entry}, add workflow entry = (next, .ok ()) →
    Took workflow (ids entry) (names entry) next
  hasRoom : ∀ {workflow next registry entry}, Registers workflow registry →
    add workflow entry = (next, .ok ()) → room registry entry
  among : ∀ {workflow entry known labels}, TextsAmong workflow known labels →
    ids entry ⊆ known → names entry ⊆ labels → TextsAmong (add workflow entry).1 known labels
  grows : ∀ {workflow} entry, Coherent workflow → Extends workflow (add workflow entry).1

def triggerRoom (registry : Registry) (_ : TriggerEntry) : Prop :=
  registry.triggers.length < EntryKind.trigger.capacity

def nodeRoom (registry : Registry) (entry : NodeEntry) : Prop :=
  registry.nodes.length < EntryKind.node.capacity ∧
    registry.ports.length + entry.ports.length ≤ EntryKind.port.capacity

theorem triggerLaws : EntryLaws addTrigger Registry.takeTrigger (fun entry => [entry.id])
    (fun entry => [entry.label.getD entry.id]) triggerRoom where
  follows := fun registers takes room => registers.addTrigger takes room
  took := took_addTrigger
  hasRoom := by
    intro workflow next registry entry registers added
    obtain ⟨known, ident, labelled, label, interned, _, named, room, _⟩ := addTrigger_eq_ok added
    have registersLabelled := (registers.internIdent interned).1.internName named
    have sameLength := registersLabelled.triggers.length_eq
    rw [List.length_map] at sameLength
    rw [triggerRoom, sameLength]
    exact room
  among := fun among idsPresent namesPresent =>
    among.addTrigger (idsPresent List.mem_cons_self) (namesPresent List.mem_cons_self)
  grows := fun entry coherent => extends_addTrigger coherent entry

theorem nodeLaws : EntryLaws addNode Registry.takeNode NodeEntry.identTexts NodeEntry.nameTexts
    nodeRoom where
  follows := fun registers takes room => registers.addNode takes room.1 room.2
  took := took_addNode
  hasRoom := by
    intro workflow next registry entry registers added
    obtain ⟨known, ident, labelled, label, listing, ids, defaultPort, interned, notDeclared, named,
      room, ofPorts, _⟩ := addNode_eq_ok added
    have registersLabelled := (registers.internIdent interned).1.internName named
    have sameLength := registersLabelled.nodes.length_eq
    rw [List.length_map] at sameLength
    refine ⟨by rw [sameLength]; exact Nat.lt_of_not_le room, ?_⟩
    have pushed := (extends_pushNode_of_internIdent registers.coherent interned named notDeclared
      room).coherent registers.coherent
    have noneYet : ∀ port ∈ (#[] : Array PortId),
        (labelled.pushNode ident label).Owns labelled.nodes.nextId port := by
      intro port member
      exact absurd member (Array.not_mem_empty port)
    have fits := ((addPorts_spec pushed noneYet ofPorts).1.coherent pushed).portsFit
    obtain ⟨_, _, adds⟩ := addsPorts_addPorts pushed registersLabelled.names ofPorts
    obtain ⟨ports, portsAre, reads⟩ := adds.stored
    have oldPorts : registry.ports.length =
        (labelled.pushNode ident label).ports.toList.length := registersLabelled.ports.length_eq
    have newPorts := reads.length_eq
    rw [List.length_map] at newPorts
    have allPorts : listing.ports.size = registry.ports.length + entry.ports.length := by
      rw [oldPorts, newPorts, ← List.length_append, ← portsAre]
      exact Array.length_toList.symm
    rw [allPorts] at fits
    exact Nat.le_pred_of_lt fits
  among := fun among idsPresent namesPresent => among.addNode idsPresent namesPresent
  grows := fun entry coherent => extends_addNode coherent entry

/-! ### Lists of entries -/

def RoomForAll {Entry : Type} (take : Registry → Entry → Registry × Except LoadError Unit)
    (room : Registry → Entry → Prop) : Registry → List Entry → Prop
  | _, [] => True
  | registry, entry :: rest =>
      room registry entry ∧ RoomForAll take room (take registry entry).1 rest

namespace EntryLaws

variable {Entry : Type} {add : Workflow → Entry → Workflow × Except LoadError Unit}
  {take : Registry → Entry → Registry × Except LoadError Unit} {ids names : Entry → List String}
  {room : Registry → Entry → Prop} {entries : List Entry}

private theorem addAll_cons_eq_nil {entry : Entry} {rest : List Entry}
    (added : addAll add workflow (entry :: rest) = (next, [])) :
    ∃ known, add workflow entry = (known, .ok ()) ∧ addAll add known rest = (next, []) := by
  rw [addAll] at added
  rcases first : add workflow entry with ⟨known, error | _⟩
  · rw [first] at added
    cases added
  · rw [first] at added
    exact ⟨known, rfl, added⟩

theorem took_addAll (laws : EntryLaws add take ids names room)
    (registers : workflow.Registers registry)
    (added : addAll add workflow entries = (next, [])) :
    Took workflow (entries.flatMap ids) (entries.flatMap names) next ∧
      next.Registers (Registry.takeAll take registry entries).1 ∧
        (Registry.takeAll take registry entries).2 = [] := by
  induction entries generalizing workflow registry with
  | nil =>
      cases added
      exact ⟨⟨rfl, rfl⟩, registers, rfl⟩
  | cons entry rest ih =>
      obtain ⟨known, first, ofRest⟩ := addAll_cons_eq_nil added
      have took := laws.took first
      obtain ⟨registersKnown, sameAnswer⟩ :=
        laws.follows registers took.takesTexts (laws.hasRoom registers first)
      rw [first] at registersKnown sameAnswer
      obtain ⟨tookRest, registersNext, accepted⟩ := ih registersKnown ofRest
      rw [Registry.takeAll_cons_fst, Registry.takeAll_cons_eq_nil_iff]
      exact ⟨took.trans tookRest, registersNext, sameAnswer.symm, accepted⟩

/-- A list whose texts are taken and for which there is room is accepted by its ids alone. -/
theorem exists_addAll (laws : EntryLaws add take ids names room)
    (registers : workflow.Registers registry)
    (takes : workflow.TakesTexts (entries.flatMap ids) (entries.flatMap names))
    (hasRoom : RoomForAll take room registry entries)
    (accepted : (Registry.takeAll take registry entries).2 = []) :
    ∃ next, addAll add workflow entries = (next, []) := by
  induction entries generalizing workflow registry with
  | nil => exact ⟨workflow, rfl⟩
  | cons entry rest ih =>
      obtain ⟨firstAccepted, restAccepted⟩ := Registry.takeAll_cons_eq_nil_iff.mp accepted
      obtain ⟨registersKnown, sameAnswer⟩ := laws.follows registers takes.front hasRoom.1
      rcases first : add workflow entry with ⟨known, answer⟩
      rw [first] at registersKnown sameAnswer
      cases sameAnswer.trans firstAccepted
      obtain ⟨next, ofRest⟩ :=
        ih registersKnown ((laws.took first).rest takes) hasRoom.2 restAccepted
      refine ⟨next, ?_⟩
      rw [addAll, first]
      exact ofRest

theorem addAll_cons_fst (entry : Entry) (rest : List Entry) :
    (addAll add workflow (entry :: rest)).1 = (addAll add (add workflow entry).1 rest).1 := by
  rw [addAll]
  rcases add workflow entry with ⟨known, error | _⟩ <;> rfl

theorem among_addAll (laws : EntryLaws add take ids names room) {known labels : List String}
    (among : workflow.TextsAmong known labels) (idsInside : entries.flatMap ids ⊆ known)
    (namesInside : entries.flatMap names ⊆ labels) :
    (addAll add workflow entries).1.TextsAmong known labels := by
  induction entries generalizing workflow with
  | nil => exact among
  | cons entry rest ih =>
      rw [List.flatMap_cons, List.append_subset] at idsInside namesInside
      rw [addAll_cons_fst]
      exact ih (laws.among among idsInside.1 namesInside.1) idsInside.2 namesInside.2

theorem extends_addAll (laws : EntryLaws add take ids names room) (coherent : workflow.Coherent) :
    Extends workflow (addAll add workflow entries).1 := by
  induction entries generalizing workflow with
  | nil => exact .refl _
  | cons entry rest ih =>
      have first := laws.grows entry coherent
      rw [addAll_cons_fst]
      exact first.trans (ih (first.coherent coherent))

/-- A list for which there is room and whose texts are all in larger interners is answered as
the registered ids have it, entry by entry. -/
theorem follows_addAll (laws : EntryLaws add take ids names room) {large : Workflow}
    (largeIdents : large.idents.Lawful) (largeNames : large.names.Lawful)
    (identsFit : large.idents.byteSize < UInt64.size)
    (namesFit : large.names.byteSize < UInt32.size)
    (registers : workflow.Registers registry)
    (among : workflow.TextsAmong large.idents.strings.toList large.names.strings.toList)
    (idsInside : entries.flatMap ids ⊆ large.idents.strings.toList)
    (namesInside : entries.flatMap names ⊆ large.names.strings.toList)
    (hasRoom : RoomForAll take room registry entries) :
    (addAll add workflow entries).1.Registers (Registry.takeAll take registry entries).1 ∧
      (addAll add workflow entries).2 = (Registry.takeAll take registry entries).2 := by
  induction entries generalizing workflow registry with
  | nil => exact ⟨registers, rfl⟩
  | cons entry rest ih =>
      rw [List.flatMap_cons, List.append_subset] at idsInside namesInside
      have takes : workflow.TakesTexts (ids entry) (names entry) :=
        ⟨Interner.exists_internAll registers.coherent.identsLawful largeIdents identsFit among.ids
            idsInside.1,
          Interner.exists_internAll registers.names largeNames namesFit among.names namesInside.1⟩
      obtain ⟨registersKnown, sameAnswer⟩ := laws.follows registers takes hasRoom.1
      -- Also a refused entry leaves no other texts behind, so the rest can be taken.
      have amongKnown := laws.among among idsInside.1 namesInside.1
      have ofRest := ih registersKnown amongKnown idsInside.2 namesInside.2 hasRoom.2
      rw [addAll, Registry.takeAll]
      rcases first : add workflow entry with ⟨known, answer⟩
      rcases taken : take registry entry with ⟨after, expected⟩
      rw [first, taken] at sameAnswer ofRest
      cases sameAnswer
      obtain ⟨registersNext, sameErrors⟩ := ofRest
      cases answer with
      | ok _ => exact ⟨registersNext, sameErrors⟩
      | error error => exact ⟨registersNext, congrArg (List.cons error) sameErrors⟩

end EntryLaws

end Workflow

end FlowGraph
