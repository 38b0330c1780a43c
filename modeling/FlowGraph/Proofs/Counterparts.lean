import FlowGraph.Proofs.Embedding
import FlowGraph.Proofs.Traversal

/-!
Workflows with the same declarations whose edges correspond, in any order. What can be reached
depends on the edges that resolve alone, and so do the graphs that the main expression and
the components denote.
-/

namespace FlowGraph

open FlowGraph.Build

namespace Workflow

variable {same : IdentId → IdentId → Prop} {left right workflow : Workflow}

/-! ### The other way round -/

private theorem rel_flip {Left Right : Type} {relation : Left → Right → Prop} {first : Option Left}
    {second : Option Right} (related : Option.Rel relation first second) :
    Option.Rel (flip relation) second first := by
  cases related with
  | none => exact .none
  | some alike => exact .some alike

theorem SameEnds.flip {edge other : Edge} (ends : SameEnds same edge other) :
    SameEnds (flip same) other edge :=
  ⟨ends.sourceNode, rel_flip ends.sourcePort, ends.targetNode⟩

theorem Agree.flip (agree : Agree same left right) : Agree (flip same) right left where
  unique := ⟨fun _ _ _ first second => agree.unique.2 first second,
    fun _ _ _ first second => agree.unique.1 first second⟩
  hasTriggers := agree.hasTriggers.symm
  isEntrypoint := fun alike => (agree.isEntrypoint alike).symm
  lookupTrigger? := fun alike => (agree.lookupTrigger? alike).symm
  lookupNode? := fun alike => (agree.lookupNode? alike).symm
  lookupPort? := fun alike => (agree.lookupPort? alike).symm
  node? := by
    intro node
    rcases rel_cases (agree.node? node) with ⟨isNone, alsoNone⟩ | ⟨_, _, isNode, alsoNode, alike⟩
    · rw [isNone, alsoNone]
      exact .none
    · rw [isNode, alsoNode]
      exact .some ⟨alike.1, alike.2.1.symm, alike.2.2.symm⟩
  port? := by
    intro port
    rcases rel_cases (agree.port? port) with ⟨isNone, alsoNone⟩ | ⟨_, _, isPort, alsoPort, alike⟩
    · rw [isNone, alsoNone]
      exact .none
    · rw [isPort, alsoPort]
      exact .some ⟨alike.1, alike.2.symm⟩

/-! ### One edge and its counterpart -/

def Counterpart (same : IdentId → IdentId → Prop) (left right : Workflow) (edge other : EdgeId) :
    Prop :=
  ∃ entry image, left.edge? edge = some entry ∧ right.edge? other = some image ∧
    SameEnds same entry image

namespace Counterpart

variable {edge other : EdgeId}

theorem flip (counterpart : Counterpart same left right edge other) :
    Counterpart (flip same) right left other edge := by
  obtain ⟨entry, image, found, imageFound, ends⟩ := counterpart
  exact ⟨image, entry, imageFound, found, ends.flip⟩

variable (counterpart : Counterpart same left right edge other)
include counterpart

theorem mem_edgesWhere (leftCoherent : left.Coherent) (rightCoherent : right.Coherent)
    {test otherTest : Edge → Bool}
    (alike : ∀ {entry image}, SameEnds same entry image → test entry = otherTest image) :
    edge ∈ left.edgesWhere test ↔ other ∈ right.edgesWhere otherTest := by
  obtain ⟨entry, image, found, imageFound, ends⟩ := counterpart
  rw [Workflow.mem_edgesWhere leftCoherent, Workflow.mem_edgesWhere rightCoherent]
  simp [found, imageFound, alike ends]

variable (agree : Agree same left right)
include agree

theorem resolveEdge : left.resolveEdge edge = right.resolveEdge other := by
  obtain ⟨entry, image, found, imageFound, ends⟩ := counterpart
  rw [Workflow.resolveEdge, Workflow.resolveEdge, found, imageFound]
  exact agree.resolve ends

theorem mem_entryEdges (leftCoherent : left.Coherent) (rightCoherent : right.Coherent) :
    edge ∈ left.entryEdges ↔ other ∈ right.entryEdges :=
  counterpart.mem_edgesWhere leftCoherent rightCoherent agree.isEntryEdge

theorem mem_outgoing (leftCoherent : left.Coherent) (rightCoherent : right.Coherent)
    (node : NodeId) : edge ∈ left.outgoing node ↔ other ∈ right.outgoing node := by
  have ports : ∀ port, edge ∈ left.edgesThroughPort port ↔ other ∈ right.edgesThroughPort port := by
    intro port
    unfold edgesThroughPort
    rcases rel_cases (agree.port? port) with ⟨isNone, alsoNone⟩ | ⟨_, _, isPort, alsoPort, alike⟩
    · simp [isNone, alsoNone]
    · rw [isPort, alsoPort]
      exact counterpart.mem_edgesWhere leftCoherent rightCoherent (agree.namesPort alike.1)
  have portless : edge ∈ left.portlessEdges node ↔ other ∈ right.portlessEdges node := by
    unfold portlessEdges
    rcases rel_cases (agree.node? node) with ⟨isNone, alsoNone⟩ | ⟨_, _, isNode, alsoNode, alike⟩
    · simp [isNone, alsoNone]
    · rw [isNode, alsoNode]
      exact counterpart.mem_edgesWhere leftCoherent rightCoherent (agree.isPortless alike.1)
  rw [Workflow.mem_outgoing, Workflow.mem_outgoing, agree.portsOf, portless]
  simp only [ports]

end Counterpart

/-! ### Reachable edges -/

/-- Workflows with the same declarations in which each edge that resolves has a counterpart. -/
structure Matches (same : IdentId → IdentId → Prop) (left right : Workflow) : Prop
    extends Agree same left right where
  leftCoherent : left.Coherent
  rightCoherent : right.Coherent
  onward : ∀ edge resolved, left.resolveEdge edge = .ok resolved →
    ∃ other, Counterpart same left right edge other
  back : ∀ edge resolved, right.resolveEdge edge = .ok resolved →
    ∃ other, Counterpart same left right other edge

namespace Matches

variable {edge other : EdgeId}

theorem flip (alike : Matches same left right) : Matches (flip same) right left where
  toAgree := alike.toAgree.flip
  leftCoherent := alike.rightCoherent
  rightCoherent := alike.leftCoherent
  onward := fun edge resolved resolves =>
    (alike.back edge resolved resolves).imp fun _ counterpart => counterpart.flip
  back := fun edge resolved resolves =>
    (alike.onward edge resolved resolves).imp fun _ counterpart => counterpart.flip

private theorem reached_of_reached (alike : Matches same left right) (reached : left.Reached edge)
    (counterpart : Counterpart same left right edge other) : right.Reached other := by
  induction reached generalizing other with
  | entry isEntry =>
      exact .entry ((counterpart.mem_entryEdges alike.toAgree alike.leftCoherent
        alike.rightCoherent).mp isEntry)
  | onward _ resolves leaves ih =>
      obtain ⟨before, ofBefore⟩ := alike.onward _ _ resolves
      refine .onward (ih ofBefore) ((ofBefore.resolveEdge alike.toAgree).symm.trans resolves) ?_
      exact (counterpart.mem_outgoing alike.toAgree alike.leftCoherent alike.rightCoherent _).mp
        leaves

theorem reached_iff (alike : Matches same left right)
    (counterpart : Counterpart same left right edge other) :
    left.Reached edge ↔ right.Reached other :=
  ⟨fun reached => alike.reached_of_reached reached counterpart,
    fun reached => alike.flip.reached_of_reached reached counterpart.flip⟩

private theorem exists_resolved (alike : Matches same left right) {holds : Prop → Prop}
    {resolved : ResolvedEdge}
    (found : ∃ edge, left.resolveEdge edge = .ok resolved ∧ holds (left.Reached edge)) :
    ∃ edge, right.resolveEdge edge = .ok resolved ∧ holds (right.Reached edge) := by
  obtain ⟨edge, resolves, reached⟩ := found
  obtain ⟨other, counterpart⟩ := alike.onward _ _ resolves
  refine ⟨other, (counterpart.resolveEdge alike.toAgree).symm.trans resolves, ?_⟩
  rw [← alike.reached_iff counterpart]
  exact reached

private theorem exists_resolved_iff (alike : Matches same left right) (holds : Prop → Prop)
    (resolved : ResolvedEdge) :
    (∃ edge, left.resolveEdge edge = .ok resolved ∧ holds (left.Reached edge)) ↔
      ∃ edge, right.resolveEdge edge = .ok resolved ∧ holds (right.Reached edge) :=
  ⟨alike.exists_resolved, alike.flip.exists_resolved⟩

end Matches

/-! ### Denoted graphs -/

section Graphs

variable (coherent : workflow.Coherent)
include coherent

private theorem mem_links_main {link : Reference × Reference} :
    link ∈ workflow.compile.main.links ↔
      ∃ target, link.2 = .node target ∧ ∃ edge,
        workflow.resolveEdge edge = .ok ⟨some link.1, target⟩ ∧ workflow.Reached edge := by
  have covers : Covers workflow (entryTriggers workflow) workflow.mainBuild.progress.processed
      workflow.compile.main := (sound_mainBuild coherent).1.covers
  simp only [covers.links, mem_processed_mainBuild coherent, Joins]
  constructor
  · rintro ⟨edge, reached, target, resolves, place⟩
    exact ⟨target, place, edge, resolves, reached⟩
  · rintro ⟨target, place, edge, resolves, reached⟩
    exact ⟨edge, reached, target, resolves, place⟩

private theorem node_mem_heads_main {node : NodeId} :
    .node node ∈ workflow.compile.main.heads ↔
      ∃ edge, workflow.resolveEdge edge = .ok ⟨none, node⟩ ∧ workflow.Reached edge := by
  have covers : Covers workflow (entryTriggers workflow) workflow.mainBuild.progress.processed
      workflow.compile.main := (sound_mainBuild coherent).1.covers
  simp only [covers.heads, mem_processed_mainBuild coherent, mem_entryTriggers, Enters]
  constructor
  · rintro (⟨_, _, _, _, _, _, impossible⟩ | ⟨edge, reached, target, resolves, same⟩)
    · cases impossible
    · cases same
      exact ⟨edge, resolves, reached⟩
  · rintro ⟨edge, resolves, reached⟩
    exact Or.inr ⟨edge, reached, node, resolves, rfl⟩

private theorem mem_links_components {link : Reference × Reference} :
    (∃ expr ∈ workflow.compile.components, link ∈ expr.links) ↔
      ∃ target, link.2 = .node target ∧ ∃ edge,
        workflow.resolveEdge edge = .ok ⟨some link.1, target⟩ ∧ ¬ workflow.Reached edge := by
  rw [(coverTogether_compile coherent).1.links]
  simp only [mem_leftover coherent, mem_processed_mainBuild coherent, Joins]
  constructor
  · rintro ⟨edge, ⟨_, notReached⟩, target, resolves, place⟩
    exact ⟨target, place, edge, resolves, notReached⟩
  · rintro ⟨target, place, edge, resolves, notReached⟩
    exact ⟨edge, ⟨mem_edge_ids_of_resolveEdge coherent resolves, notReached⟩, target, resolves,
      place⟩

end Graphs

/-- Matching workflows denote the same links, with their main expressions and with all their
components together, and their main expressions start at the same nodes. -/
theorem Matches.links_and_heads (alike : Matches same left right) :
    (∀ link, link ∈ left.compile.main.links ↔ link ∈ right.compile.main.links) ∧
      (∀ node, .node node ∈ left.compile.main.heads ↔ .node node ∈ right.compile.main.heads) ∧
      ∀ link, (∃ expr ∈ left.compile.components, link ∈ expr.links) ↔
        ∃ expr ∈ right.compile.components, link ∈ expr.links := by
  refine ⟨?_, ?_, ?_⟩
  · intro link
    rw [mem_links_main alike.leftCoherent, mem_links_main alike.rightCoherent]
    exact exists_congr fun target => and_congr_right fun _ =>
      alike.exists_resolved_iff (fun reached => reached) _
  · intro node
    rw [node_mem_heads_main alike.leftCoherent, node_mem_heads_main alike.rightCoherent]
    exact alike.exists_resolved_iff (fun reached => reached) _
  · intro link
    rw [mem_links_components alike.leftCoherent, mem_links_components alike.rightCoherent]
    exact exists_congr fun target => and_congr_right fun _ => alike.exists_resolved_iff Not _

end Workflow

end FlowGraph
