import FlowGraph.Document.Builder
import FlowGraph.Proofs.CanonicalForm
import FlowGraph.Proofs.Counterparts
import FlowGraph.Proofs.FewerEdges

/-!
The order in which edges are written. It decides neither what is reached nor which graph is
denoted. It does decide how the graph is put into one expression, also when there is a single
entry and no circle, and then sets that are put in order do not make up for it.
-/

namespace FlowGraph

open FlowGraph.Build FlowGraph.Expr

namespace Expr

/-! ### Sets in order -/

private theorem SameGraph.set_perm {members others : List Expr} (perm : members.Perm others) :
    SameGraph (.set members) (.set others) where
  heads := fun head => by simp only [mem_heads_set, perm.mem_iff]
  links := fun link => by simp only [mem_links_set, perm.mem_iff]
  exits := fun leaving => by simp only [mem_exits_set, perm.mem_iff]

private theorem sameGraph_canonical (expr : Expr) : SameGraph expr.canonical expr := by
  induction expr with
  | empty => exact .refl _
  | node nodeId => exact .refl _
  | port nodeId portId => exact .refl _
  | trigger triggerId => exact .refl _
  | sequence first second ofFirst ofSecond => exact ofFirst.sequence ofSecond
  | set members ofMembers =>
      have images : SameGraph (.set (members.map canonical)) (.set (members.map id)) :=
        SameGraph.set_map ofMembers
      rw [List.map_id] at images
      rw [canonical_set]
      exact (SameGraph.set_perm (perm_sorted _)).trans images

end Expr

namespace Workflow

variable {same : IdentId → IdentId → Prop} {document : Document} {entries : List EdgeEntry}
  {left right workflow : Workflow}

/-! ### The same edges in another order -/

private theorem exists_entry_of_edge?
    (reads : List.Forall₂ workflow.Reads entries workflow.edges.toList)
    {edge : EdgeId} {stored : Edge} (found : workflow.edge? edge = some stored) :
    ∃ entry ∈ entries, workflow.Reads entry stored :=
  exists_partner reads (Array.mem_toList_iff.mpr (Array.mem_of_getElem? found))

private theorem exists_edge?_of_entry
    (reads : List.Forall₂ workflow.Reads entries workflow.edges.toList)
    {entry : EdgeEntry} (isEntry : entry ∈ entries) :
    ∃ edge stored, workflow.edge? edge = some stored ∧ workflow.Reads entry stored := by
  have flipped : List.Forall₂ (flip workflow.Reads) workflow.edges.toList entries :=
    List.Forall₂.flip reads
  obtain ⟨stored, isStored, readsEntry⟩ := exists_partner flipped isEntry
  obtain ⟨place, atPlace⟩ := List.mem_iff_getElem?.mp isStored
  refine ⟨⟨place⟩, stored, ?_, readsEntry⟩
  rw [← atPlace]
  exact Array.getElem?_toList.symm

private theorem exists_counterpart_of_perm (perm : entries.Perm document.edges)
    (reads : List.Forall₂ left.Reads document.edges left.edges.toList)
    (otherReads : List.Forall₂ right.Reads entries right.edges.toList) :
    (∀ edge stored, left.edge? edge = some stored →
      ∃ other, Counterpart (SameText left right) left right edge other) ∧
    ∀ edge stored, right.edge? edge = some stored →
      ∃ other, Counterpart (SameText left right) left right other edge := by
  constructor
  · intro edge stored found
    obtain ⟨entry, isEntry, readsEntry⟩ := exists_entry_of_edge? reads found
    obtain ⟨other, image, isImage, readsImage⟩ :=
      exists_edge?_of_entry otherReads (perm.mem_iff.mpr isEntry)
    exact ⟨other, stored, image, found, isImage, sameEnds_of_reads readsEntry readsImage⟩
  · intro edge stored found
    obtain ⟨entry, isEntry, readsEntry⟩ := exists_entry_of_edge? otherReads found
    obtain ⟨other, image, isImage, readsImage⟩ :=
      exists_edge?_of_entry reads (perm.mem_iff.mp isEntry)
    exact ⟨other, image, stored, isImage, found, sameEnds_of_reads readsImage readsEntry⟩

private theorem trigger_mem_heads_main (coherent : workflow.Coherent) {trigger : TriggerId} :
    .trigger trigger ∈ workflow.compile.main.heads ↔
      ∃ edge entry, workflow.edge? edge = some entry ∧
        workflow.lookupTrigger? entry.sourceNode = some trigger := by
  have covers : Covers workflow (entryTriggers workflow) workflow.mainBuild.progress.processed
      workflow.compile.main := (sound_mainBuild coherent).1.covers
  rw [covers.heads, mem_entryTriggers]
  constructor
  · rintro (⟨edge, _, entry, _, found, declared, same⟩ | ⟨_, _, _, _, impossible⟩)
    · cases same
      exact ⟨edge, entry, found, declared⟩
    · cases impossible
  · rintro ⟨edge, entry, found, declared⟩
    exact Or.inl ⟨edge, mem_entryEdges_of_trigger coherent found declared, entry, trigger, found,
      declared, rfl⟩

private theorem not_port_mem_heads_main (coherent : workflow.Coherent) {node : NodeId}
    {port : PortId} : .port node port ∉ workflow.compile.main.heads := by
  have covers : Covers workflow (entryTriggers workflow) workflow.mainBuild.progress.processed
      workflow.compile.main := (sound_mainBuild coherent).1.covers
  rw [covers.heads, mem_entryTriggers]
  rintro (⟨_, _, _, _, _, _, impossible⟩ | ⟨_, _, _, _, impossible⟩)
  · cases impossible
  · cases impossible

private theorem exists_trigger_of_counterparts (agree : Agree same left right)
    (counterparts : ∀ edge entry, left.edge? edge = some entry →
      ∃ other, Counterpart same left right edge other) {trigger : TriggerId}
    (leaves : ∃ edge entry, left.edge? edge = some entry ∧
      left.lookupTrigger? entry.sourceNode = some trigger) :
    ∃ edge entry, right.edge? edge = some entry ∧
      right.lookupTrigger? entry.sourceNode = some trigger := by
  obtain ⟨edge, entry, found, declared⟩ := leaves
  obtain ⟨other, stored, image, isStored, isImage, ends⟩ := counterparts edge entry found
  cases found.symm.trans isStored
  exact ⟨other, image, isImage, (agree.lookupTrigger? ends.sourceNode).symm.trans declared⟩

end Workflow

/-! ### Main result -/

/-- However the edges of a document are ordered, the main expression denotes the same graph, in
canonical form too, and so do the components together. With its edges in another order the
document loads as well, as long as its texts do not use up the offsets. -/
theorem compile_of_perm {document : Document} {entries : List EdgeEntry} {left : Workflow}
    (loaded : Workflow.load document = .ok left) (perm : entries.Perm document.edges) :
    (left.idents.byteSize < UInt64.size →
      ∃ right, Workflow.load { document with edges := entries } = .ok right) ∧
    ∀ right, Workflow.load { document with edges := entries } = .ok right →
      SameOutline left.compile.main right.compile.main ∧
      SameOutline left.compile.main.canonical right.compile.main.canonical ∧
      ∀ link, (∃ expr ∈ left.compile.components, link ∈ expr.links) ↔
        ∃ expr ∈ right.compile.components, link ∈ expr.links := by
  refine ⟨fun fits => Workflow.exists_load_setEdges loaded fits perm.subset
    (Nat.le_of_eq perm.length_eq), ?_⟩
  intro right otherLoaded
  obtain ⟨base, baseLoaded, coherent, adds, reads⟩ := Workflow.exists_base_of_load loaded
  obtain ⟨other, alsoLoaded, _, otherAdds, otherReads⟩ := Workflow.exists_base_of_load otherLoaded
  have sameBase : base = other := Except.ok.inj (baseLoaded.symm.trans alsoLoaded)
  subst sameBase
  have agree := Workflow.agree_sameText coherent adds otherAdds
  obtain ⟨onward, back⟩ := Workflow.exists_counterpart_of_perm perm reads otherReads
  have alike : Workflow.Matches (Workflow.SameText left right) left right :=
    { toAgree := agree
      leftCoherent := adds.coherent
      rightCoherent := otherAdds.coherent
      onward := fun edge resolved resolves =>
        have ⟨entry, found, _⟩ := Workflow.target_of_resolveEdge resolves
        onward edge entry found
      back := fun edge resolved resolves =>
        have ⟨entry, found, _⟩ := Workflow.target_of_resolveEdge resolves
        back edge entry found }
  obtain ⟨links, nodes, components⟩ := alike.links_and_heads
  have triggers : ∀ trigger, .trigger trigger ∈ left.compile.main.heads ↔
      .trigger trigger ∈ right.compile.main.heads := by
    intro trigger
    rw [Workflow.trigger_mem_heads_main adds.coherent,
      Workflow.trigger_mem_heads_main otherAdds.coherent]
    exact ⟨Workflow.exists_trigger_of_counterparts agree onward,
      Workflow.exists_trigger_of_counterparts agree.flip fun edge entry found =>
        (back edge entry found).imp fun _ counterpart => counterpart.flip⟩
  have heads : ∀ head, head ∈ left.compile.main.heads ↔ head ∈ right.compile.main.heads := by
    intro head
    cases head with
    | node node => exact nodes node
    | trigger trigger => exact triggers trigger
    | port node port =>
        exact iff_of_false (Workflow.not_port_mem_heads_main adds.coherent)
          (Workflow.not_port_mem_heads_main otherAdds.coherent)
  have outline : SameOutline left.compile.main right.compile.main := ⟨heads, links⟩
  refine ⟨outline, ?_, components⟩
  calc SameOutline left.compile.main.canonical left.compile.main :=
        (sameGraph_canonical _).toSameOutline
    SameOutline _ right.compile.main := outline
    SameOutline _ right.compile.main.canonical := (sameGraph_canonical _).toSameOutline.symm

def forked : Document :=
  (((((Document.ofEntrypoint "entry").addNodes ["a", "b", "c", "d"]).addEdge "entry" "a").addEdge
    "entry" "b").addEdge "a" "c").addEdge "a" "d" |>.addEdge "b" "c"

def forkedOtherwise : List EdgeEntry := [1, 2, 4, 0, 3].filterMap fun place => forked.edges[place]?

theorem compile_of_perm_forked :
    ∃ left right, Workflow.load forked = .ok left ∧ forkedOtherwise.Perm forked.edges ∧
      Workflow.load { forked with edges := forkedOtherwise } = .ok right ∧
      left.compile.main = .set [.sequence (.node ⟨0⟩) (.set [.node ⟨2⟩, .node ⟨3⟩]),
        .sequence (.node ⟨1⟩) (.node ⟨2⟩)] ∧
      SameOutline left.compile.main.canonical right.compile.main.canonical := by
  have evaluated : ((Workflow.load forked).toOption.map fun workflow =>
      (workflow.compile.main, decide (workflow.idents.byteSize < UInt64.size))) =
      some (.set [.sequence (.node ⟨0⟩) (.set [.node ⟨2⟩, .node ⟨3⟩]),
        .sequence (.node ⟨1⟩) (.node ⟨2⟩)], true) := by
    decide +kernel
  have perm : forkedOtherwise.Perm forked.edges := by decide +kernel
  obtain ⟨left, loaded, views⟩ := Workflow.exists_load_of_map_toOption evaluated
  simp only [Prod.mk.injEq, decide_eq_true_eq] at views
  obtain ⟨main, fits⟩ := views
  obtain ⟨loads, alike⟩ := compile_of_perm loaded perm
  obtain ⟨right, otherLoaded⟩ := loads fits
  exact ⟨left, right, loaded, perm, otherLoaded, main, (alike right otherLoaded).2.1⟩

/-- All edges resolve and can be reached from the structural entry, no trigger is declared, and
every edge between two nodes leads to a higher rank. -/
structure Workflow.SingleEntryAcyclic (workflow : Workflow) (rank : NodeId → Nat) : Prop where
  entrance : workflow.entrypoint.isSome = true
  noTrigger : workflow.hasTriggers = false
  resolves : ∀ edge ∈ workflow.edges.ids, ∃ resolved, workflow.resolveEdge edge = .ok resolved
  reached : ∀ edge ∈ workflow.edges.ids, workflow.Reached edge
  upward : ∀ edge resolved node, workflow.resolveEdge edge = .ok resolved →
    resolved.source.bind Reference.node? = some node → rank node < rank resolved.target

/-- The edge that meets another one first is put together with it, and the shared target cannot
be taken apart again: in one order the first node ends up before both of its targets, and in the
other order before one of them. -/
theorem canonical_ne_of_perm_forked :
    ∃ left right, Workflow.load forked = .ok left ∧
      Workflow.load { forked with edges := forkedOtherwise } = .ok right ∧
      forkedOtherwise.Perm forked.edges ∧ left.SingleEntryAcyclic NodeId.number ∧
      left.compile.main.canonical = .set [.sequence (.node ⟨0⟩) (.set [.node ⟨2⟩, .node ⟨3⟩]),
        .sequence (.node ⟨1⟩) (.node ⟨2⟩)] ∧
      right.compile.main.canonical = .set [.sequence (.node ⟨0⟩) (.node ⟨3⟩),
        .sequence (.set [.node ⟨0⟩, .node ⟨1⟩]) (.node ⟨2⟩)] ∧
      left.compile.main.canonical ≠ right.compile.main.canonical := by
  have evaluated : ((Workflow.load forked).toOption.map fun workflow =>
      (workflow.compile.main.canonical,
        workflow.edges.ids.all workflow.mainBuild.progress.processed.contains,
        workflow.edges.ids.all fun edge => (workflow.resolveEdge edge).toOption.any fun resolved =>
          (resolved.source.bind Reference.node?).all (·.number < resolved.target.number),
        workflow.entrypoint.isSome && !workflow.hasTriggers)) =
      some (.set [.sequence (.node ⟨0⟩) (.set [.node ⟨2⟩, .node ⟨3⟩]),
        .sequence (.node ⟨1⟩) (.node ⟨2⟩)], true, true, true) := by
    decide +kernel
  have otherwise : ((Workflow.load { forked with edges := forkedOtherwise }).toOption.map
      fun workflow => workflow.compile.main.canonical) =
      some (.set [.sequence (.node ⟨0⟩) (.node ⟨3⟩),
        .sequence (.set [.node ⟨0⟩, .node ⟨1⟩]) (.node ⟨2⟩)]) := by
    decide +kernel
  obtain ⟨left, loaded, views⟩ := Workflow.exists_load_of_map_toOption evaluated
  obtain ⟨right, otherLoaded, otherCanonical⟩ := Workflow.exists_load_of_map_toOption otherwise
  simp only [Prod.mk.injEq, List.all_eq_true, Bool.and_eq_true, Bool.not_eq_true'] at views
  obtain ⟨canonical, allProcessed, allUpward, entrance, noTrigger⟩ := views
  have coherent := Workflow.coherent_of_load loaded
  have acyclic : left.SingleEntryAcyclic NodeId.number :=
    { entrance := entrance
      noTrigger := noTrigger
      resolves := by
        intro edge isEdge
        obtain ⟨resolved, resolves, _⟩ := (Option.any_eq_true _ _).mp (allUpward edge isEdge)
        exact ⟨resolved, eq_ok_of_toOption_eq_some resolves⟩
      reached := fun edge isEdge =>
        (mem_processed_mainBuild coherent).mp (List.contains_iff_mem.mp (allProcessed edge isEdge))
      upward := by
        intro edge resolved node resolves isNode
        have isEdge := Workflow.mem_edge_ids_of_resolveEdge coherent resolves
        have upward := allUpward edge isEdge
        rw [resolves] at upward
        simpa [Except.toOption, isNode] using upward }
  refine ⟨left, right, loaded, otherLoaded, by decide +kernel, acyclic, canonical, otherCanonical,
    ?_⟩
  rw [canonical, otherCanonical]
  decide

end FlowGraph
