import FlowGraph.Proofs.BuildInvariant
import FlowGraph.Proofs.ReadBack

/-!
Leaves that a workflow stores. Everything that a loaded workflow is compiled into, and
every expression on the way there, consists of leaves whose nodes, ports and triggers are in
their arenas. A leaf never names a port of another node, nor the default port of its own.
-/

namespace FlowGraph

open FlowGraph.Expr

namespace Expr

/-! ### Leaves -/

mutual

def leaves : Expr → List Reference
  | .empty => []
  | .node nodeId => [.node nodeId]
  | .port nodeId portId => [.port nodeId portId]
  | .trigger triggerId => [.trigger triggerId]
  | .sequence first second => first.leaves ++ second.leaves
  | .set members => leavesOfAll members

def leavesOfAll : List Expr → List Reference
  | [] => []
  | member :: members => member.leaves ++ leavesOfAll members

end

theorem mem_leavesOfAll {leaf : Reference} {members : List Expr} :
    leaf ∈ leavesOfAll members ↔ ∃ member ∈ members, leaf ∈ member.leaves := by
  induction members with
  | nil => simp [leavesOfAll]
  | cons member members ih => simp [leavesOfAll, ih]

@[simp] theorem leaves_ofReference (reference : Reference) :
    (ofReference reference).leaves = [reference] := by
  cases reference <;> rfl

theorem leaves_andThen (first second : Expr) :
    (first.andThen second).leaves = first.leaves ++ second.leaves :=
  append_andThen rfl (fun _ _ => rfl) first second

/-! ### Leaves of flat sets -/

theorem mem_leaves_of_mem_spread {expr piece : Expr} {leaf : Reference}
    (inSpread : piece ∈ expr.spread) (isLeaf : leaf ∈ piece.leaves) : leaf ∈ expr.leaves := by
  induction expr with
  | empty => cases inSpread
  | set members ih =>
      obtain ⟨member, present, inMember⟩ := mem_spreadAll.mp inSpread
      exact mem_leavesOfAll.mpr ⟨member, present, ih member present inMember⟩
  | _ => exact List.mem_singleton.mp inSpread ▸ isLeaf

private theorem mem_leaves_ofMembers {members : List Expr} {leaf : Reference} :
    leaf ∈ (ofMembers members).leaves ↔ ∃ member ∈ members, leaf ∈ member.leaves := by
  match members with
  | [] => simp [ofMembers, leaves]
  | [member] => simp [ofMembers]
  | first :: second :: rest => exact mem_leavesOfAll

theorem exists_mem_leaves_of_pieces {members pieces : List Expr} {leaf : Reference}
    (chosen : pieces ⊆ inlined members) (isLeaf : leaf ∈ (ofMembers pieces).leaves) :
    ∃ member ∈ members, leaf ∈ member.leaves := by
  obtain ⟨piece, isPiece, inPiece⟩ := mem_leaves_ofMembers.mp isLeaf
  obtain ⟨member, present, inSpread⟩ := mem_inlined.mp (chosen isPiece)
  exact ⟨member, present, mem_leaves_of_mem_spread inSpread inPiece⟩

/-- Solid expressions of valid leaves are put together from their like only. -/
theorem rewriteInvariant_leaves (hasDefaultExit : NodeId → Bool) (valid : Reference → Prop) :
    RewriteInvariant hasDefaultExit
      (fun expr => expr.Solid ∧ ∀ leaf ∈ expr.leaves, valid leaf) where
  solid := And.left
  operands := by
    rintro first second ⟨solid, all⟩
    cases solid with
    | sequence ofFirst ofSecond =>
        exact ⟨⟨ofFirst, fun leaf isLeaf => all leaf (List.mem_append_left _ isLeaf)⟩,
          ⟨ofSecond, fun leaf isLeaf => all leaf (List.mem_append_right _ isLeaf)⟩⟩
  members := by
    rintro members ⟨solid, all⟩ member present
    cases solid with
    | set _ ofMembers =>
        exact ⟨ofMembers member present,
          fun leaf isLeaf => all leaf (mem_leavesOfAll.mpr ⟨member, present, isLeaf⟩)⟩
  andThen := by
    rintro first second ⟨firstSolid, ofFirst⟩ ⟨secondSolid, ofSecond⟩
    refine ⟨firstSolid.andThen secondSolid, ?_⟩
    intro leaf isLeaf
    rw [leaves_andThen] at isLeaf
    exact (List.mem_append.mp isLeaf).elim (ofFirst leaf) (ofSecond leaf)
  flatten := by
    intro members held occupied
    refine ⟨solid_flatten_of_ne_empty (fun member present full => (held member present full).1)
      occupied, ?_⟩
    intro leaf isLeaf
    obtain ⟨member, present, inMember⟩ :=
      exists_mem_leaves_of_pieces (List.filter_subset_self _) isLeaf
    have full : member ≠ .empty := by
      rintro rfl
      cases inMember
    exact (held member present full).2 leaf inMember
  branching := by
    intro members set inhabited held formed
    refine ⟨solid_branching inhabited (fun member present => (held member present).1) formed, ?_⟩
    obtain ⟨_, rfl⟩ := branching?_cases formed
    intro leaf isLeaf
    obtain ⟨member, present, inMember⟩ := exists_mem_leaves_of_pieces (fun _ h => h) isLeaf
    exact (held member present).2 leaf inMember

end Expr

namespace Workflow

variable {workflow : Workflow} {document : Document}

/-! ### Stored references -/

/-- A reference whose parts are all in the arenas of a workflow. A port is one of its node's
own, and is not the default port, through which the node itself is left. -/
def Stores (workflow : Workflow) : Reference → Prop
  | .node nodeId => ∃ entry, workflow.node? nodeId = some entry
  | .port nodeId portId => ∃ entry portEntry, workflow.node? nodeId = some entry ∧
      workflow.port? portId = some portEntry ∧ portEntry.node = nodeId ∧
        entry.defaultPort ≠ some portId
  | .trigger triggerId => ∃ entry, workflow.trigger? triggerId = some entry

theorem Stores.owner {reference : Reference} (stored : workflow.Stores reference) :
    workflow.Stores reference.owner := by
  cases reference with
  | node node => exact stored
  | port node port =>
      obtain ⟨entry, _, isNode, _⟩ := stored
      exact ⟨entry, isNode⟩
  | trigger trigger => exact stored

theorem Stores.node {reference : Reference} {node : NodeId} (stored : workflow.Stores reference)
    (isNode : reference.node? = some node) : workflow.Stores (.node node) := by
  have ofOwner := stored.owner
  cases reference <;> cases isNode <;> exact ofOwner

theorem stores_of_lookupNode? (coherent : workflow.Coherent) {ident : IdentId} {node : NodeId}
    (declared : workflow.lookupNode? ident = some node) : workflow.Stores (.node node) := by
  obtain ⟨entry, isNode, _⟩ := coherent.nodeStored declared
  exact ⟨entry, isNode⟩

private theorem stores_of_exitThrough? {node : NodeId} {port : Option IdentId} {leaving : Reference}
    (stored : workflow.Stores (.node node))
    (exits : workflow.exitThrough? node port = some leaving) : workflow.Stores leaving := by
  obtain ⟨entry, isNode⟩ := stored
  cases port with
  | none =>
      cases exits
      exact ⟨entry, isNode⟩
  | some ident =>
      rw [exitThrough?] at exits
      split at exits
      · cases exits
      · rename_i port _
        split at exits
        · rename_i isOwn
          obtain ⟨portEntry, isPort, ofNode⟩ := (Option.any_eq_true _ _).mp isOwn
          split at exits
          · cases exits
            exact ⟨entry, isNode⟩
          · rename_i noDefault
            cases exits
            refine ⟨entry, portEntry, isNode, isPort, eq_of_beq ofNode, ?_⟩
            intro isDefault
            rw [defaultPortOf?, isNode, Option.bind_some, isDefault] at noDefault
            exact noDefault BEq.rfl
        · cases exits

theorem Written.stores_of_lookupTrigger? (written : workflow.Written document) {ident : IdentId}
    {trigger : TriggerId} (declared : workflow.lookupTrigger? ident = some trigger) :
    workflow.Stores (.trigger trigger) := by
  obtain ⟨stored, isTrigger, _⟩ := (written.triggerTable ident trigger).mp declared
  exact ⟨stored, isTrigger⟩

/-- Both ends of an edge that resolves are stored. -/
theorem Written.stores_of_resolveEdge (written : workflow.Written document) {edge : EdgeId}
    {resolved : ResolvedEdge} (resolves : workflow.resolveEdge edge = .ok resolved) :
    workflow.Stores (.node resolved.target) ∧
      ∀ leaving, resolved.source = some leaving → workflow.Stores leaving := by
  obtain ⟨_, _, isTarget⟩ := target_of_resolveEdge resolves
  refine ⟨stores_of_lookupNode? written.coherent isTarget, ?_⟩
  intro leaving isSource
  obtain ⟨_, _, origin⟩ := origin_of_resolveEdge resolves
  rcases origin with
    ⟨_, noSource⟩ | ⟨trigger, origin, isTrigger⟩ | ⟨node, other, origin, exits, isOther⟩
  · cases noSource.symm.trans isSource
  · cases isTrigger.symm.trans isSource
    exact written.stores_of_lookupTrigger? (lookupTrigger?_of_origin? origin)
  · cases isOther.symm.trans isSource
    exact stores_of_exitThrough?
      (stores_of_lookupNode? written.coherent (lookupNode?_of_origin? origin)) exits

/-! ### Building -/

/-- All leaves that a build of a loaded workflow brings in are stored. -/
theorem Written.buildInvariant_stores (written : workflow.Written document) :
    BuildInvariant workflow
      (fun expr => expr.Solid ∧ ∀ leaf ∈ expr.leaves, workflow.Stores leaf) where
  toRewriteInvariant := rewriteInvariant_leaves _ _
  target := fun resolves => by
    simpa [leaves, Solid.node] using (written.stores_of_resolveEdge resolves).1
  source := by
    intro edge leaving target resolves
    have stored := (written.stores_of_resolveEdge resolves).2 leaving rfl
    simp [solid_ofReference, stored, stored.owner]
  trigger := fun declared => by
    simpa [leaves, Solid.trigger] using written.stores_of_lookupTrigger? declared

end Workflow

/-- What a build holds is stored: the leaves of its expression, which is solid unless it is
still empty, the edges of its queue, and the nodes that such an edge is followed from and asked
about. -/
structure Build.InRange (workflow : Workflow) (build : Build) : Prop where
  formed : build.expr.EmptyOrSolid
  leaves : ∀ leaf ∈ build.expr.leaves, workflow.Stores leaf
  edges : ∀ edge ∈ build.queue.pending ++ build.queue.fresh,
    ∃ entry, workflow.edge? edge = some entry
  /-- The node whose outgoing edges are queued next, and from which a link back is looked for. -/
  targets : ∀ edge ∈ build.queue.pending ++ build.queue.fresh, ∀ resolved,
    workflow.resolveEdge edge = .ok resolved → workflow.Stores (.node resolved.target)
  /-- What is folded as the source, with the node to which a link back is looked for. -/
  sources : ∀ edge ∈ build.queue.pending ++ build.queue.fresh, ∀ resolved leaving,
    workflow.resolveEdge edge = .ok resolved → resolved.source = some leaving →
      workflow.Stores leaving ∧
        ∀ node, leaving.node? = some node → workflow.Stores (.node node)

namespace Workflow

variable {workflow : Workflow} {document : Document} {start build : Build}

private theorem Written.inRange_of_visits (written : workflow.Written document)
    (visited : Build.Visits workflow start build)
    (held : start.expr.EmptyOr
      fun expr => expr.Solid ∧ ∀ leaf ∈ expr.leaves, workflow.Stores leaf)
    (scope : start.queue.pending ++ start.queue.fresh ⊆ workflow.edges.ids) :
    build.InRange workflow where
  formed := (written.buildInvariant_stores.visits visited held).imp_right And.left
  leaves := by
    rcases written.buildInvariant_stores.visits visited held with vacant | ⟨_, all⟩
    · rw [vacant]
      exact nofun
    · exact all
  edges := fun edge present =>
    (Arena.mem_ids (Nat.le_of_lt written.coherent.edgesFit)).mp
      (scope (visited.queue_subset present))
  targets := fun _ _ _ resolves => (written.stores_of_resolveEdge resolves).1
  sources := by
    intro _ _ resolved leaving resolves isSource
    have stored := (written.stores_of_resolveEdge resolves).2 leaving isSource
    exact ⟨stored, fun node isNode => stored.node isNode⟩

theorem Written.inRange_main (written : workflow.Written document) {progress : Progress}
    (visited : Build.Visits workflow (Build.mainStart workflow progress) build) :
    build.InRange workflow := by
  apply written.inRange_of_visits visited (written.buildInvariant_stores.mainStart progress)
  exact List.append_subset.mpr ⟨(edgesWhere_sublist workflow _).subset, List.filter_subset_self _⟩

theorem Written.inRange_component (written : workflow.Written document) {component : Component}
    (inside : component.map Prod.fst ⊆ workflow.edges.ids) {progress : Progress}
    (visited : Build.Visits workflow (Build.ofRoots workflow component progress) build) :
    build.InRange workflow := by
  apply written.inRange_of_visits visited (written.buildInvariant_stores.ofRoots component progress)
  refine List.append_subset.mpr ⟨?_, ?_⟩
  · exact List.Subset.trans (Build.rootEdges_sublist component).subset inside
  · exact List.Subset.trans (List.filter_subset_self _) inside

end Workflow

end FlowGraph
