import FlowGraph.Proofs.FaithfulLoading
import FlowGraph.Proofs.TwinClasses

/-!
Raw ids are told apart, and nothing else is asked about them. When all ids of a document are
renamed one to one it compiles to the same expressions, whatever its edges are called and
whatever texts are shown for its parts.
-/

namespace FlowGraph

/-! ### Renamed documents -/

structure NodeEntry.Renames (rename : String → String) (entry renamed : NodeEntry) : Prop where
  id : renamed.id = rename entry.id
  ports : List.Forall₂ (fun port other : PortEntry => other.id = rename port.id)
    entry.ports renamed.ports
  defaultPort : renamed.defaultPort = entry.defaultPort.map rename

/-- The ids that an edge leaves and enters are renamed. Its own id and its target port are not
looked at. -/
structure EdgeEntry.Renames (rename : String → String) (entry renamed : EdgeEntry) : Prop where
  sourceNode : renamed.sourceNode = rename entry.sourceNode
  sourcePort : renamed.sourcePort = entry.sourcePort.map rename
  targetNode : renamed.targetNode = rename entry.targetNode

/-- One document has the entries of another one, in the same order, with the ids renamed. -/
structure Document.Renames (rename : String → String) (document renamed : Document) : Prop where
  entrypoint : renamed.entrypoint = document.entrypoint.map rename
  triggers : List.Forall₂ (fun entry other : TriggerEntry => other.id = rename entry.id)
    document.triggers renamed.triggers
  nodes : List.Forall₂ (NodeEntry.Renames rename) document.nodes renamed.nodes
  edges : List.Forall₂ (EdgeEntry.Renames rename) document.edges renamed.edges

/-! ### Lists of corresponding entries -/

private theorem findIdx?_eq_of_forall₂ {Left Right : Type} {relation : Left → Right → Prop}
    {lefts : List Left} {rights : List Right} {test : Left → Bool} {other : Right → Bool}
    (alike : ∀ left right, relation left right → test left = other right)
    (related : List.Forall₂ relation lefts rights) :
    lefts.findIdx? test = rights.findIdx? other := by
  induction related with
  | nil => rfl
  | cons first _ ih => rw [List.findIdx?_cons, List.findIdx?_cons, alike _ _ first, ih]

private theorem forall₂_zipIdx {Left Right : Type} {relation : Left → Right → Prop}
    {lefts : List Left} {rights : List Right} (related : List.Forall₂ relation lefts rights)
    (start : Nat) :
    List.Forall₂ (fun left right => relation left.1 right.1 ∧ left.2 = right.2)
      (lefts.zipIdx start) (rights.zipIdx start) := by
  induction related generalizing start with
  | nil => exact .nil
  | cons first _ ih => exact .cons ⟨first, rfl⟩ (ih (start + 1))

private theorem forall₂_of_entries {Left Right First Second : Type} {entries : Left → Right → Prop}
    {reads : Left → First → Prop} {readsOther : Right → Second → Prop}
    {relation : First → Second → Prop} {lefts : List Left} {rights : List Right}
    {firsts : List First} {seconds : List Second}
    (relates : ∀ left right first second, entries left right → reads left first →
      readsOther right second → relation first second)
    (related : List.Forall₂ entries lefts rights) (ofLefts : List.Forall₂ reads lefts firsts)
    (ofRights : List.Forall₂ readsOther rights seconds) : List.Forall₂ relation firsts seconds := by
  induction related generalizing firsts seconds with
  | nil =>
      cases ofLefts
      cases ofRights
      exact .nil
  | cons first _ ih =>
      cases ofLefts with
      | cons left lefts =>
          cases ofRights with
          | cons right rights => exact .cons (relates _ _ _ _ first left right) (ih lefts rights)

namespace Document.Renames

variable {rename : String → String} {document renamed : Document}
  (renames : document.Renames rename renamed) (injective : Function.Injective rename)
include renames injective

theorem nodeOf? (id : String) : document.nodeOf? id = renamed.nodeOf? (rename id) := by
  rw [Document.nodeOf?, Document.nodeOf?]
  congr 1
  refine findIdx?_eq_of_forall₂ (fun entry other alike => ?_) renames.nodes
  simp [alike.id, injective.eq_iff]

theorem triggerOf? (id : String) : document.triggerOf? id = renamed.triggerOf? (rename id) := by
  rw [Document.triggerOf?, Document.triggerOf?]
  congr 1
  refine findIdx?_eq_of_forall₂ (fun entry other alike => ?_) renames.triggers
  simp [alike, injective.eq_iff]

omit injective in
theorem portEntries :
    List.Forall₂ (fun entry other : NodeId × PortEntry => entry.1 = other.1 ∧
      other.2.id = rename entry.2.id) document.portEntries renamed.portEntries := by
  refine List.rel_flatMap (forall₂_zipIdx renames.nodes 0) ?_
  rintro ⟨entry, place⟩ ⟨other, _⟩ ⟨alike, rfl⟩
  exact List.rel_map (fun port otherPort samePort => ⟨rfl, samePort⟩) alike.ports

theorem portOf? (id : String) : document.portOf? id = renamed.portOf? (rename id) := by
  rw [Document.portOf?, Document.portOf?]
  congr 1
  refine findIdx?_eq_of_forall₂ (fun entry other alike => ?_) renames.portEntries
  simp [alike.2, injective.eq_iff]

end Document.Renames

namespace Workflow

variable {rename : String → String} {document renamed : Document} {left right : Workflow}

def Renamed (rename : String → String) (left right : Workflow) (ident other : IdentId) : Prop :=
  ∃ text, left.identText? ident = some text ∧ right.identText? other = some (rename text)

private theorem biUnique_renamed (leftCoherent : left.Coherent) (rightCoherent : right.Coherent)
    (injective : Function.Injective rename) : Relator.BiUnique (Renamed rename left right) := by
  constructor
  · rintro first second other ⟨text, ofFirst, ofOther⟩ ⟨again, ofSecond, alsoOther⟩
    rw [ofOther, Option.some.injEq] at alsoOther
    cases injective alsoOther
    exact leftCoherent.ident_eq_of_identText? ofFirst ofSecond
  · rintro other first second ⟨text, ofOther, ofFirst⟩ ⟨again, alsoOther, ofSecond⟩
    rw [ofOther] at alsoOther
    cases alsoOther
    exact rightCoherent.ident_eq_of_identText? ofFirst ofSecond

private theorem rel_renamed_of_map {ident other : Option IdentId} {text : Option String}
    (ofLeft : ident.map left.identText? = text.map some)
    (ofRight : other.map right.identText? = (text.map rename).map some) :
    Option.Rel (Renamed rename left right) ident other := by
  cases ident <;> cases other <;> cases text <;> simp_all [Renamed]

private theorem Written.portOf?_of_reads (written : left.Written document) {node : NodeId}
    {entry : PortEntry} {port : PortId}
    (reads : ∃ stored, left.port? port = some stored ∧ left.ReadsPort (node, entry) stored) :
    document.portOf? entry.id = some port := by
  obtain ⟨stored, isPort, readsPort⟩ := reads
  rw [← written.findPort?_eq]
  exact (written.findPort?_eq_some entry.id port).mpr ⟨stored, isPort, readsPort.ident⟩

private theorem ReadsNode.defaultPort_eq_none {entry : NodeEntry × Nat} {node : Node}
    (reads : left.ReadsNode entry node) (noDefault : entry.1.defaultPort = none) :
    node.defaultPort = none := by
  rcases rel_cases reads.defaultPort with ⟨_, isNone⟩ | ⟨_, _, isSome, _, _⟩
  · exact isNone
  · cases noDefault.symm.trans isSome

section Loaded

variable (renames : document.Renames rename renamed) (injective : Function.Injective rename)
  (written : left.Written document) (otherWritten : right.Written renamed)
include renames injective written otherWritten

private theorem forall₂_nodes_of_renames :
    List.Forall₂ (fun node other => Renamed rename left right node.ident other.ident ∧
      node.ports = other.ports ∧ node.defaultPort = other.defaultPort)
      left.nodes.toList right.nodes.toList := by
  refine forall₂_of_entries ?_ (forall₂_zipIdx renames.nodes 0) written.nodes otherWritten.nodes
  rintro ⟨entry, place⟩ ⟨other, _⟩ node stored ⟨alike, rfl⟩ reads otherReads
  refine ⟨⟨entry.id, reads.ident, alike.id ▸ otherReads.ident⟩, ?_, ?_⟩
  · rw [← List.forall₂_eq_eq_eq]
    refine forall₂_of_entries ?_ alike.ports reads.ports otherReads.ports
    intro port otherPort found otherFound sameId isPort isOther
    have byId := written.portOf?_of_reads isPort
    rw [renames.portOf? injective, ← sameId, otherWritten.portOf?_of_reads isOther] at byId
    exact (Option.some.inj byId).symm
  · cases isDefault : entry.defaultPort with
    | none =>
        have otherNone : other.defaultPort = none := by rw [alike.defaultPort, isDefault]; rfl
        rw [reads.defaultPort_eq_none isDefault, otherReads.defaultPort_eq_none otherNone]
    | some id =>
        have otherDefault : other.defaultPort = some (rename id) := by
          rw [alike.defaultPort, isDefault]
          rfl
        obtain ⟨port, _, isPort, byId, _⟩ :=
          written.exists_defaultPort ⟨place⟩ reads isDefault
        obtain ⟨otherPort, _, isOther, otherById, _⟩ :=
          otherWritten.exists_defaultPort ⟨place⟩ otherReads otherDefault
        rw [renames.portOf? injective, otherById] at byId
        rw [isPort, isOther, byId]

private theorem agree_of_renames : Agree (Renamed rename left right) left right where
  unique := biUnique_renamed written.coherent otherWritten.coherent injective
  hasTriggers := by
    have sameSize : left.triggers.values.size = right.triggers.values.size := by
      rw [← Array.length_toList, ← Array.length_toList]
      exact (written.triggers.length_eq.symm.trans renames.triggers.length_eq).trans
        otherWritten.triggers.length_eq
    rw [Workflow.hasTriggers, Workflow.hasTriggers, Arena.isEmpty, Arena.isEmpty, Array.isEmpty,
      Array.isEmpty, sameSize]
  isEntrypoint := by
    rintro ident other ⟨text, isText, isOther⟩
    rw [written.isEntrypoint_eq isText, otherWritten.isEntrypoint_eq isOther, renames.entrypoint]
    cases document.entrypoint <;> simp [injective.eq_iff]
  lookupTrigger? := by
    rintro ident other ⟨text, isText, isOther⟩
    rw [written.lookupTrigger?_eq isText, otherWritten.lookupTrigger?_eq isOther,
      renames.triggerOf? injective]
  lookupNode? := by
    rintro ident other ⟨text, isText, isOther⟩
    rw [written.lookupNode?_eq isText, otherWritten.lookupNode?_eq isOther,
      renames.nodeOf? injective]
  lookupPort? := by
    rintro ident other ⟨text, isText, isOther⟩
    rw [written.lookupPort?_eq isText, otherWritten.lookupPort?_eq isOther,
      renames.portOf? injective]
  node? := by
    intro node
    rw [Workflow.node?, Workflow.node?, Arena.get?, Arena.get?, ← left.nodes.values.getElem?_toList,
      ← right.nodes.values.getElem?_toList]
    exact rel_getElem? (forall₂_nodes_of_renames renames injective written otherWritten) node.number
  port? := by
    intro port
    have ports : List.Forall₂ (fun stored other =>
        Renamed rename left right stored.ident other.ident ∧ stored.node = other.node)
        left.ports.toList right.ports.toList := by
      refine forall₂_of_entries ?_ renames.portEntries written.ports otherWritten.ports
      rintro entry other stored image ⟨sameNode, sameId⟩ reads otherReads
      refine ⟨⟨entry.2.id, reads.ident, sameId ▸ otherReads.ident⟩, ?_⟩
      rw [reads.node, otherReads.node, sameNode]
    rw [Workflow.port?, Workflow.port?, Arena.get?, Arena.get?, ← left.ports.values.getElem?_toList,
      ← right.ports.values.getElem?_toList]
    exact rel_getElem? ports port.number

private theorem embeds_of_renames :
    Embeds (Renamed rename left right) id (fun _ => true) left right where
  toAgree := agree_of_renames renames injective written otherWritten
  injective := Function.injective_id
  edge? := by
    intro edge
    have edges : List.Forall₂ (SameEnds (Renamed rename left right)) left.edges.toList
        right.edges.toList := by
      refine forall₂_of_entries ?_ renames.edges written.edges otherWritten.edges
      intro entry other stored image alike reads otherReads
      refine ⟨⟨entry.sourceNode, reads.sourceNode, alike.sourceNode ▸ otherReads.sourceNode⟩,
        rel_renamed_of_map reads.sourcePort (alike.sourcePort ▸ otherReads.sourcePort),
        ⟨entry.targetNode, reads.targetNode, alike.targetNode ▸ otherReads.targetNode⟩⟩
    rw [Workflow.edge?, Workflow.edge?, Arena.get?, Arena.get?, ← left.edges.values.getElem?_toList,
      ← right.edges.values.getElem?_toList]
    exact rel_getElem? edges edge.number
  ids := by
    rw [List.map_id, List.filter_eq_self.mpr fun _ _ => rfl, written.numbered.edges,
      otherWritten.numbered.edges, renames.edges.length_eq]
  smallCoherent := written.coherent
  largeCoherent := otherWritten.coherent

end Loaded

end Workflow

/-- Two documents that both load and differ only by a renaming of raw ids, one to one, compile to
the same expressions. The ids of edges and target ports, and all labels and names, may differ in
any way. -/
theorem compile_of_renames {rename : String → String} {document renamed : Document}
    {left right : Workflow} (renames : document.Renames rename renamed)
    (injective : Function.Injective rename) (loaded : Workflow.load document = .ok left)
    (otherLoaded : Workflow.load renamed = .ok right) :
    right.compile.main = left.compile.main ∧
      right.compile.components = left.compile.components :=
  compile_of_embeds_all (Workflow.embeds_of_renames renames injective
    (Workflow.written_of_load loaded) (Workflow.written_of_load otherLoaded))

def branching : Document :=
  { entrypoint := some "start"
    nodes :=
      [{ id := "a", ports := [{ id := "yes", name := "yes" }, { id := "no", name := "no" }],
          defaultPort := some "yes" }, { id := "b" }, { id := "c" }]
    edges :=
      [{ id := "1", sourceNode := "start", targetNode := "a" },
        { id := "2", sourceNode := "a", sourcePort := some "no", targetNode := "b" },
        { id := "3", sourceNode := "c", targetNode := "b" }] }

def branchingRenamed : Document :=
  { entrypoint := some "xstart"
    nodes :=
      [{ id := "xa", label := some "choice",
          ports := [{ id := "xyes", name := "on" }, { id := "xno", name := "off" }],
          defaultPort := some "xyes" }, { id := "xb" }, { id := "xc" }]
    edges :=
      [{ id := "xb", sourceNode := "xstart", targetNode := "xa", targetPort := some "xno" },
        { id := "xno", sourceNode := "xa", sourcePort := some "xno", targetNode := "xb" },
        { id := "xc", sourceNode := "xc", targetNode := "xb" }] }

theorem compile_of_renames_branching :
    ∃ left right, Workflow.load branching = .ok left ∧ Workflow.load branchingRenamed = .ok right ∧
      branching.Renames ("x" ++ ·) branchingRenamed ∧ Function.Injective ("x" ++ ·) ∧
      right.compile.main = .sequence (.port ⟨0⟩ ⟨1⟩) (.node ⟨1⟩) ∧
      right.compile.components = [.sequence (.node ⟨2⟩) (.node ⟨1⟩)] := by
  have evaluated : ((Workflow.load branching).toOption.map fun workflow =>
      (workflow.compile.main, workflow.compile.components)) =
      some (.sequence (.port ⟨0⟩ ⟨1⟩) (.node ⟨1⟩),
        [.sequence (.node ⟨2⟩) (.node ⟨1⟩)]) := by
    decide +kernel
  have alsoLoads : (Workflow.load branchingRenamed).toOption.map (fun _ => ()) = some () := by
    decide +kernel
  obtain ⟨left, loaded, views⟩ := Workflow.exists_load_of_map_toOption evaluated
  obtain ⟨right, otherLoaded, _⟩ := Workflow.exists_load_of_map_toOption alsoLoads
  obtain ⟨main, components⟩ := Prod.mk.inj views
  have injective : Function.Injective ("x" ++ · : String → String) :=
    fun _ _ => (String.append_right_inj "x").mp
  have renames : branching.Renames ("x" ++ ·) branchingRenamed :=
    { entrypoint := rfl
      triggers := .nil
      nodes := .cons ⟨rfl, .cons rfl (.cons rfl .nil), rfl⟩
        (.cons ⟨rfl, .nil, rfl⟩ (.cons ⟨rfl, .nil, rfl⟩ .nil))
      edges := .cons ⟨rfl, rfl, rfl⟩ (.cons ⟨rfl, rfl, rfl⟩ (.cons ⟨rfl, rfl, rfl⟩ .nil)) }
  obtain ⟨sameMain, sameComponents⟩ := compile_of_renames renames injective loaded otherLoaded
  exact ⟨left, right, loaded, otherLoaded, renames, injective, sameMain.trans main,
    sameComponents.trans components⟩

end FlowGraph
