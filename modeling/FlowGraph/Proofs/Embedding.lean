import FlowGraph.Proofs.EdgeEnds
import Mathlib.Data.List.Forall2

/-!
Workflows that differ in how their raw ids are numbered, and in edges that only one of them
has. What is asked about a declaration, or about an edge that both have, is answered alike.
-/

namespace FlowGraph.Workflow

variable {same : IdentId → IdentId → Prop} {small large : Workflow}

theorem rel_cases {Left Right : Type} {relation : Left → Right → Prop}
    {left : Option Left} {right : Option Right} (related : Option.Rel relation left right) :
    left = none ∧ right = none ∨
      ∃ first second, left = some first ∧ right = some second ∧ relation first second := by
  cases related with
  | none => exact Or.inl ⟨rfl, rfl⟩
  | some related => exact Or.inr ⟨_, _, rfl, rfl, related⟩

theorem rel_getElem? {Left Right : Type} {relation : Left → Right → Prop} {lefts : List Left}
    {rights : List Right} (related : List.Forall₂ relation lefts rights) (place : Nat) :
    Option.Rel relation lefts[place]? rights[place]? := by
  induction related generalizing place with
  | nil => exact .none
  | cons first _ ih =>
      cases place with
      | zero => exact .some first
      | succ place => exact ih place

structure SameEnds (same : IdentId → IdentId → Prop) (left right : Edge) : Prop where
  sourceNode : same left.sourceNode right.sourceNode
  sourcePort : Option.Rel same left.sourcePort right.sourcePort
  targetNode : same left.targetNode right.targetNode

structure Agree (same : IdentId → IdentId → Prop) (small large : Workflow) : Prop where
  unique : Relator.BiUnique same
  hasTriggers : small.hasTriggers = large.hasTriggers
  isEntrypoint : ∀ {left right}, same left right →
    small.isEntrypoint left = large.isEntrypoint right
  lookupTrigger? : ∀ {left right}, same left right →
    small.lookupTrigger? left = large.lookupTrigger? right
  lookupNode? : ∀ {left right}, same left right →
    small.lookupNode? left = large.lookupNode? right
  lookupPort? : ∀ {left right}, same left right →
    small.lookupPort? left = large.lookupPort? right
  node? : ∀ node, Option.Rel (fun left right => same left.ident right.ident ∧
    left.ports = right.ports ∧ left.defaultPort = right.defaultPort)
    (small.node? node) (large.node? node)
  port? : ∀ port, Option.Rel (fun left right => same left.ident right.ident ∧
    left.node = right.node) (small.port? port) (large.port? port)

/-! ### Declarations -/

namespace Agree

variable (agree : Agree same small large)
include agree

theorem portsOf (node : NodeId) : small.portsOf node = large.portsOf node := by
  unfold Workflow.portsOf
  rcases rel_cases (agree.node? node) with ⟨isNone, alsoNone⟩ | ⟨_, _, isNode, alsoNode, alike⟩
  · rw [isNone, alsoNone]
  · rw [isNode, alsoNode]
    exact alike.2.1

theorem defaultPortOf? (node : NodeId) :
    small.defaultPortOf? node = large.defaultPortOf? node := by
  unfold Workflow.defaultPortOf?
  rcases rel_cases (agree.node? node) with ⟨isNone, alsoNone⟩ | ⟨_, _, isNode, alsoNode, alike⟩
  · rw [isNone, alsoNone]
  · rw [isNode, alsoNode]
    exact alike.2.2

theorem hasDefaultExit : small.hasDefaultExit = large.hasDefaultExit := by
  funext node
  rw [Workflow.hasDefaultExit, Workflow.hasDefaultExit, agree.portsOf, agree.defaultPortOf?]

theorem origin? {left right : IdentId} (alike : same left right) :
    small.origin? left = large.origin? right := by
  unfold Workflow.origin?
  rw [agree.isEntrypoint alike, agree.lookupTrigger? alike, agree.lookupNode? alike]

theorem exitThrough? (node : NodeId) {left right : Option IdentId}
    (alike : Option.Rel same left right) :
    small.exitThrough? node left = large.exitThrough? node right := by
  cases alike with
  | none => rfl
  | some alike =>
      unfold Workflow.exitThrough?
      dsimp only
      rw [agree.lookupPort? alike, agree.defaultPortOf?]
      cases large.lookupPort? _ with
      | none => rfl
      | some port =>
          dsimp only
          rcases rel_cases (agree.port? port) with
            ⟨isNone, alsoNone⟩ | ⟨_, _, isPort, alsoPort, alike⟩
          · rw [isNone, alsoNone]
          · rw [isPort, alsoPort, Option.any_some, Option.any_some, alike.2]

theorem resolve {left right : Edge} (alike : SameEnds same left right) :
    small.resolve left = large.resolve right := by
  unfold Workflow.resolve targetNode?
  rw [agree.lookupNode? alike.targetNode, agree.origin? alike.sourceNode]
  simp only [agree.exitThrough? _ alike.sourcePort]

theorem isEntryEdge {left right : Edge} (alike : SameEnds same left right) :
    small.isEntryEdge left = large.isEntryEdge right := by
  unfold Workflow.isEntryEdge
  rw [agree.hasTriggers, agree.lookupTrigger? alike.sourceNode,
    agree.isEntrypoint alike.sourceNode]

theorem namesPort {port other : IdentId} (samePort : same port other) {left right : Edge}
    (alike : SameEnds same left right) :
    (left.sourcePort == some port) = (right.sourcePort == some other) := by
  rcases rel_cases alike.sourcePort with ⟨isNone, alsoNone⟩ | ⟨_, _, named, alsoNamed, alike⟩
  · rw [isNone, alsoNone]
    rfl
  · simp [named, alsoNamed, Relator.rel_eq agree.unique alike samePort]

theorem isPortless {node other : IdentId} (sameNode : same node other) {left right : Edge}
    (alike : SameEnds same left right) :
    (left.sourcePort.isNone && left.sourceNode == node) =
      (right.sourcePort.isNone && right.sourceNode == other) := by
  have sameSource := Relator.rel_eq agree.unique alike.sourceNode sameNode
  rcases rel_cases alike.sourcePort with ⟨isNone, alsoNone⟩ | ⟨_, _, named, alsoNamed, _⟩
  · simp [isNone, alsoNone, sameSource]
  · simp [named, alsoNamed]

end Agree

/-! ### Edges -/

private theorem edgesWhere_eq_filter {workflow : Workflow} (coherent : workflow.Coherent)
    (test : Edge → Bool) :
    workflow.edgesWhere test =
      workflow.edges.ids.filter fun edge => (workflow.edge? edge).any test := by
  have fits := Nat.le_of_lt coherent.edgesFit
  rw [edgesWhere, ← Arena.map_fst_enumerate, List.filter_map]
  congr 1
  apply List.filter_congr
  rintro ⟨edge, entry⟩ stored
  have found : workflow.edge? edge = some entry := (Arena.mem_enumerate fits).mp stored
  rw [Function.comp_apply, found, Option.any_some]

/-- An edge between the raw ids of two nodes, whether or not it resolves. -/
def Links (workflow : Workflow) (edge : EdgeId) (source target : NodeId) : Prop :=
  ∃ entry sourceEntry targetEntry, workflow.edge? edge = some entry ∧
    workflow.node? source = some sourceEntry ∧ workflow.node? target = some targetEntry ∧
      entry.sourceNode = sourceEntry.ident ∧ entry.targetNode = targetEntry.ident

theorem hasLink_iff {workflow : Workflow} {source target : NodeId} :
    workflow.hasLink source target = true ↔ ∃ edge, workflow.Links edge source target := by
  unfold hasLink
  cases isSource : workflow.node? source with
  | none => simp [Links, isSource]
  | some sourceEntry =>
      cases isTarget : workflow.node? target with
      | none => simp [Links, isTarget]
      | some targetEntry =>
          simp only [List.any_eq_true, Bool.and_eq_true, beq_iff_eq]
          constructor
          · rintro ⟨entry, stored, ofSource, ofTarget⟩
            obtain ⟨position, found⟩ := List.mem_iff_getElem?.mp stored
            have atPosition : workflow.edge? ⟨position⟩ = some entry := by
              rw [← found]
              exact Array.getElem?_toList.symm
            exact ⟨⟨position⟩, entry, _, _, atPosition, isSource, isTarget, ofSource, ofTarget⟩
          · rintro ⟨edge, entry, _, _, found, isSourceNode, isTargetNode, ofSource, ofTarget⟩
            cases isSource.symm.trans isSourceNode
            cases isTarget.symm.trans isTargetNode
            have stored := Array.mem_toList_iff.mpr (Array.mem_of_getElem? found)
            exact ⟨entry, stored, ofSource, ofTarget⟩

/-- One workflow has some of the edges of another one. The kept edges of the other one are
the twins of its own, in the same order. -/
structure Embeds (same : IdentId → IdentId → Prop) (twin : EdgeId → EdgeId)
    (kept : EdgeId → Bool) (small large : Workflow) : Prop extends Agree same small large where
  injective : Function.Injective twin
  edge? : ∀ edge, Option.Rel (SameEnds same) (small.edge? edge) (large.edge? (twin edge))
  ids : large.edges.ids.filter kept = small.edges.ids.map twin
  smallCoherent : small.Coherent
  largeCoherent : large.Coherent

theorem sameEnds_self (edge : Edge) : SameEnds Eq edge edge where
  sourceNode := rfl
  sourcePort := by
    cases edge.sourcePort with
    | none => exact .none
    | some ident => exact .some rfl
  targetNode := rfl

private theorem agree_self (workflow : Workflow) : Agree Eq workflow workflow where
  unique := ⟨fun _ _ _ first second => first.trans second.symm,
    fun _ _ _ first second => first.symm.trans second⟩
  hasTriggers := rfl
  isEntrypoint := fun alike => alike ▸ rfl
  lookupTrigger? := fun alike => alike ▸ rfl
  lookupNode? := fun alike => alike ▸ rfl
  lookupPort? := fun alike => alike ▸ rfl
  node? := by
    intro node
    cases workflow.node? node with
    | none => exact .none
    | some entry => exact .some ⟨rfl, rfl, rfl⟩
  port? := by
    intro port
    cases workflow.port? port with
    | none => exact .none
    | some entry => exact .some ⟨rfl, rfl⟩

theorem embeds_self {workflow : Workflow} (coherent : workflow.Coherent) :
    Embeds Eq id (fun _ => true) workflow workflow where
  toAgree := agree_self workflow
  injective := Function.injective_id
  edge? := by
    intro edge
    rw [id]
    cases workflow.edge? edge with
    | none => exact .none
    | some entry => exact .some (sameEnds_self entry)
  ids := by
    rw [List.map_id]
    exact List.filter_eq_self.mpr fun _ _ => rfl
  smallCoherent := coherent
  largeCoherent := coherent

namespace Embeds

variable {twin : EdgeId → EdgeId} {kept : EdgeId → Bool}
  (embeds : Embeds same twin kept small large)
include embeds

theorem resolveEdge (edge : EdgeId) :
    small.resolveEdge edge = large.resolveEdge (twin edge) := by
  unfold Workflow.resolveEdge
  rcases rel_cases (embeds.edge? edge) with ⟨isNone, alsoNone⟩ | ⟨_, _, isEdge, alsoEdge, ends⟩
  · rw [isNone, alsoNone]
  · rw [isEdge, alsoEdge]
    exact embeds.resolve ends

theorem edgesWhere {test other : Edge → Bool}
    (alike : ∀ left right, SameEnds same left right → test left = other right) :
    (large.edgesWhere other).filter kept = (small.edgesWhere test).map twin := by
  rw [edgesWhere_eq_filter embeds.largeCoherent, edgesWhere_eq_filter embeds.smallCoherent,
    List.filter_filter]
  simp only [Bool.and_comm (kept _)]
  rw [← List.filter_filter, embeds.ids, List.filter_map]
  congr 1
  apply List.filter_congr
  intro edge _
  rw [Function.comp_apply]
  rcases rel_cases (embeds.edge? edge) with ⟨isNone, alsoNone⟩ | ⟨_, _, isEdge, alsoEdge, ends⟩
  · rw [isNone, alsoNone]
    rfl
  · rw [isEdge, alsoEdge]
    exact (alike _ _ ends).symm

theorem entryEdges : large.entryEdges.filter kept = small.entryEdges.map twin :=
  embeds.edgesWhere fun _ _ => embeds.isEntryEdge

theorem outgoing (node : NodeId) :
    (large.outgoing node).filter kept = (small.outgoing node).map twin := by
  rw [Workflow.outgoing, Workflow.outgoing, List.filter_append, List.map_append,
    List.filter_flatMap, List.map_flatMap, embeds.portsOf]
  congr 1
  · congr 1
    funext port
    unfold edgesThroughPort
    rcases rel_cases (embeds.port? port) with ⟨isNone, alsoNone⟩ | ⟨_, _, isPort, alsoPort, alike⟩
    · rw [isNone, alsoNone]
      rfl
    · rw [isPort, alsoPort]
      exact embeds.edgesWhere fun _ _ => embeds.namesPort alike.1
  · unfold portlessEdges
    rcases rel_cases (embeds.node? node) with ⟨isNone, alsoNone⟩ | ⟨_, _, isNode, alsoNode, alike⟩
    · rw [isNone, alsoNone]
      rfl
    · rw [isNode, alsoNode]
      exact embeds.edgesWhere fun _ _ => embeds.isPortless alike.1

theorem exists_twin {edge : EdgeId} {entry : Edge} (isKept : kept edge = true)
    (found : large.edge? edge = some entry) : ∃ other, twin other = edge := by
  have inIds : edge ∈ large.edges.ids :=
    (Arena.mem_ids (Nat.le_of_lt embeds.largeCoherent.edgesFit)).mpr ⟨entry, found⟩
  have isTwin : edge ∈ small.edges.ids.map twin :=
    embeds.ids ▸ List.mem_filter.mpr ⟨inIds, isKept⟩
  obtain ⟨other, _, same⟩ := List.mem_map.mp isTwin
  exact ⟨other, same⟩

private theorem links_twin {edge : EdgeId} {source target : NodeId} :
    small.Links edge source target ↔ large.Links (twin edge) source target := by
  unfold Links
  rcases rel_cases (embeds.edge? edge) with ⟨isNone, alsoNone⟩ | ⟨_, _, isEdge, alsoEdge, ends⟩
  · simp [isNone, alsoNone]
  rcases rel_cases (embeds.node? source) with
    ⟨isNone, alsoNone⟩ | ⟨_, _, first, alsoFirst, ofSource⟩
  · simp [isNone, alsoNone]
  rcases rel_cases (embeds.node? target) with ⟨isNone, alsoNone⟩ | ⟨_, _, last, alsoLast, ofTarget⟩
  · simp [isNone, alsoNone]
  simp [isEdge, alsoEdge, first, alsoFirst, last, alsoLast,
    Relator.rel_eq embeds.unique ends.sourceNode ofSource.1,
    Relator.rel_eq embeds.unique ends.targetNode ofTarget.1]

/-- Two nodes are linked alike if a kept edge links them whenever any edge does. -/
theorem hasLink {source target : NodeId}
    (someKept : ∀ edge, large.Links edge source target →
      ∃ other, kept other = true ∧ large.Links other source target) :
    small.hasLink source target = large.hasLink source target := by
  rw [Bool.eq_iff_iff, hasLink_iff, hasLink_iff]
  constructor
  · rintro ⟨edge, links⟩
    exact ⟨twin edge, embeds.links_twin.mp links⟩
  · rintro ⟨edge, links⟩
    obtain ⟨another, isKept, keptLinks⟩ := someKept edge links
    obtain ⟨entry, _, _, found, _⟩ := id keptLinks
    obtain ⟨other, rfl⟩ := embeds.exists_twin isKept found
    exact ⟨other, embeds.links_twin.mpr keptLinks⟩

end Embeds

end FlowGraph.Workflow
