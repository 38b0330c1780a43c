import FlowGraph.Proofs.FanBuilds
import FlowGraph.Proofs.LoadableDocuments

/-!
Documents whose edges form a fan. However the entries are ordered and however many branches there
are, such a document compiles to one expression: what the branches leave, all of them side by side,
and what comes where they meet.
-/

namespace FlowGraph

open FlowGraph.Build FlowGraph.Expr

/-- What the branches of a fan leave in a document. -/
inductive FanStart where
  /-- The entrypoint. -/
  | entrypoint (id : String)
  /-- A declared trigger. -/
  | trigger (id : String)
  /-- A node that is entered from the entrypoint. -/
  | node (entry id : String)

namespace FanStart

def id : FanStart → String
  | entrypoint id => id
  | trigger id => id
  | node _ id => id

def entryIds : FanStart → List String
  | trigger _ => []
  | entrypoint id => [id]
  | node entry _ => [entry]

def triggerIds : FanStart → List String
  | trigger id => [id]
  | _ => []

def nodeIds : FanStart → List String
  | node _ id => [id]
  | _ => []

def links : FanStart → List (String × String)
  | node entry id => [(entry, id)]
  | _ => []

private theorem id_mem (start : FanStart) :
    start.id ∈ start.entryIds ∨ start.id ∈ start.triggerIds ∨ start.id ∈ start.nodeIds := by
  cases start <;> simp [id, entryIds, triggerIds, nodeIds]

/-- The main graph starts there. No trigger is declared if it starts at the entrypoint or at a
node behind it, as the entrypoint leads nowhere beside triggers. A trigger that it starts at does
not share its id with the entrypoint, which would be left in its place. -/
def BeginsIn (document : Document) : FanStart → Prop
  | entrypoint id => document.entrypoint = some id ∧ document.triggers = []
  | trigger id => document.entrypoint ≠ some id ∧ ∃ entry ∈ document.triggers, entry.id = id
  | node entry _ => document.entrypoint = some entry ∧ document.triggers = []

end FanStart

/-- The edges of a document lead to several branches of one node each, from these to the node
where they meet, and further along a tail. All of it are different nodes that are declared, that
are left through no port, and none of which has the id of the entrypoint. -/
structure Document.IsFan (document : Document) (start : FanStart) (branches : List String)
    (merge : String) (tail : List String) : Prop where
  begins : start.BeginsIn document
  several : 2 ≤ branches.length
  distinct : (start.nodeIds ++ (branches ++ merge :: tail)).Nodup
  declared : ∀ id ∈ start.nodeIds ++ (branches ++ merge :: tail),
    ∃ node ∈ document.nodes, node.id = id
  notEntry : ∀ id ∈ start.nodeIds ++ (branches ++ merge :: tail), document.entrypoint ≠ some id
  edges : (document.edges.map fun edge => (edge.sourceNode, edge.targetNode)).Perm
    (start.links ++ (branches.map (fun id => (start.id, id)) ++
      (branches.map (fun id => (id, merge)) ++ linksAlong merge tail)))
  portless : ∀ edge ∈ document.edges,
    edge.sourceNode ∈ start.nodeIds ++ (branches ++ merge :: tail) → edge.sourcePort = none

private theorem Workflow.Written.mem_entryTriggers_iff {document : Document} {workflow : Workflow}
    (written : workflow.Written document) {head : Reference} :
    head ∈ entryTriggers workflow ↔ ∃ edge ∈ document.edges, ∃ triggerId,
      document.triggerOf? edge.sourceNode = some triggerId ∧ head = .trigger triggerId := by
  rw [mem_entryTriggers]
  constructor
  · rintro ⟨edge, _, stored, triggerId, found, declared, isHead⟩
    obtain ⟨entry, inside, reads⟩ :=
      exists_partner written.edges (Arena.mem_toList.mpr ⟨edge, found⟩)
    rw [written.lookupTrigger?_eq reads.sourceNode] at declared
    exact ⟨entry, inside, triggerId, declared, isHead⟩
  · rintro ⟨entry, inside, triggerId, declared, isHead⟩
    obtain ⟨stored, isStored, reads⟩ := exists_partner written.edges.flip inside
    obtain ⟨edge, found⟩ := Arena.mem_toList.mp isStored
    rw [← written.lookupTrigger?_eq reads.sourceNode] at declared
    exact ⟨edge, mem_entryEdges_of_trigger written.coherent found declared, stored, triggerId,
      found, declared, isHead⟩

private theorem Document.Loadable.triggerOf?_eq_none {document : Document}
    (loadable : document.Loadable)
    {id : String} (declared : ∃ node ∈ document.nodes, node.id = id) :
    document.triggerOf? id = none := by
  obtain ⟨node, isNode, rfl⟩ := declared
  have apart := List.disjoint_of_nodup_append loadable.ids
  have missing : (document.triggers.findIdx? fun entry => entry.id == node.id) = none := by
    rw [List.findIdx?_eq_none_iff]
    intro trigger isTrigger
    rw [beq_eq_false_iff_ne]
    intro same
    exact apart (List.mem_map_of_mem isTrigger) (same ▸ List.mem_map_of_mem isNode)
  rw [Document.triggerOf?, missing]
  rfl

namespace Document.IsFan

variable {document : Document} {workflow : Workflow} {start : FanStart} {branches : List String}
  {merge : String} {tail : List String}

def leaf (document : Document) (id : String) : Reference :=
  match document.triggerOf? id with
  | some triggerId => .trigger triggerId
  | none => .node (document.place id)

def leafOf (document : Document) (id : String) : Expr := ofReference (leaf document id)

private theorem leafOf_of_trigger {id : String} {triggerId : TriggerId}
    (found : document.triggerOf? id = some triggerId) :
    leafOf document id = .trigger triggerId := by
  rw [leafOf, leaf, found]
  rfl

def origin (document : Document) (id : String) : Option Reference :=
  if document.entrypoint = some id then none else some (leaf document id)

def outset (document : Document) : FanStart → Outset
  | .entrypoint _ => .entry
  | .trigger id => .trigger ((document.triggerOf? id).getD ⟨0⟩)
  | .node _ id => .node (document.place id)

def nodes (document : Document) (start : FanStart) (branches : List String) (merge : String)
    (tail : List String) : Fan where
  outset := outset document start
  branches := branches.map document.place
  merge := document.place merge
  tail := tail.map document.place

section Declared

variable (isFan : document.IsFan start branches merge tail)
include isFan

private theorem triggerOf?_eq_some {id : String} (isTrigger : id ∈ start.triggerIds) :
    ∃ triggerId, document.triggerOf? id = some triggerId ∧
      document.entrypoint ≠ some id ∧ outset document start = .trigger triggerId := by
  cases start with
  | trigger _ =>
      cases List.mem_singleton.mp isTrigger
      obtain ⟨differs, entry, isEntry, isId⟩ := isFan.begins
      have found : (document.triggers.findIdx? fun entry => entry.id == id).isSome = true := by
        rw [List.findIdx?_isSome, List.any_eq_true]
        exact ⟨entry, isEntry, beq_iff_eq.mpr isId⟩
      obtain ⟨number, atNumber⟩ := Option.isSome_iff_exists.mp found
      have isAt : document.triggerOf? id = some ⟨number⟩ := by
        rw [Document.triggerOf?, atNumber]
        rfl
      refine ⟨⟨number⟩, isAt, differs, ?_⟩
      rw [outset, isAt, Option.getD_some]
  | _ => cases isTrigger

theorem nodeOf?_eq_some {id : String}
    (present : id ∈ start.nodeIds ++ (branches ++ merge :: tail)) :
    document.nodeOf? id = some (document.place id) :=
  document.nodeOf?_eq_place (isFan.declared id present)

private theorem entrypoint_eq {id : String} (isEntry : id ∈ start.entryIds) :
    document.entrypoint = some id := by
  cases start with
  | trigger _ => cases isEntry
  | _ =>
      cases List.mem_singleton.mp isEntry
      exact isFan.begins.1

private theorem exists_leaving_start : ∃ edge ∈ document.edges, edge.sourceNode = start.id := by
  obtain ⟨branch, isBranch⟩ :=
    List.exists_mem_of_length_pos (Nat.lt_of_lt_of_le Nat.zero_lt_two isFan.several)
  have isLink : (start.id, branch) ∈ document.edges.map fun edge =>
      (edge.sourceNode, edge.targetNode) := by
    refine isFan.edges.symm.subset (List.mem_append_right _ (List.mem_append_left _ ?_))
    exact List.mem_map.mpr ⟨branch, isBranch, rfl⟩
  obtain ⟨edge, isEdge, ends⟩ := List.mem_map.mp isLink
  exact ⟨edge, isEdge, (Prod.mk.inj ends).1⟩

theorem ends_mem {edge : EdgeEntry} (present : edge ∈ document.edges) :
    (edge.sourceNode ∈ start.entryIds ∨ edge.sourceNode ∈ start.triggerIds ∨
        edge.sourceNode ∈ start.nodeIds ++ (branches ++ merge :: tail)) ∧
      edge.targetNode ∈ start.nodeIds ++ (branches ++ merge :: tail) := by
  have isLink := isFan.edges.subset (List.mem_map_of_mem present)
  rcases List.mem_append.mp isLink with toNode | isLater
  · cases start with
    | node entry id =>
        obtain ⟨isSource, isTarget⟩ := Prod.mk.inj (List.mem_singleton.mp toNode)
        rw [isSource, isTarget]
        exact ⟨Or.inl List.mem_cons_self, List.mem_cons_self⟩
    | _ => cases toNode
  · rcases List.mem_append.mp isLater with toBranch | isLater
    · obtain ⟨id, isBranch, isEdge⟩ := List.mem_map.mp toBranch
      obtain ⟨isSource, isTarget⟩ := Prod.mk.inj isEdge
      rw [← isSource, ← isTarget]
      exact ⟨start.id_mem.imp_right (Or.imp_right (List.mem_append_left _)), by simp [isBranch]⟩
    · rcases List.mem_append.mp isLater with toMerge | onTail
      · obtain ⟨id, isBranch, isEdge⟩ := List.mem_map.mp toMerge
        obtain ⟨isSource, isTarget⟩ := Prod.mk.inj isEdge
        rw [← isSource, ← isTarget]
        exact ⟨Or.inr (Or.inr (by simp [isBranch])), by simp⟩
      · obtain ⟨isSource, inTail⟩ := ends_of_mem_linksAlong onTail
        have behind : edge.sourceNode ∈ merge :: tail := List.mem_cons.mpr isSource
        have isTarget : edge.targetNode ∈ tail := inTail
        exact ⟨Or.inr (Or.inr (by simp [behind])), by simp [isTarget]⟩

theorem proper : (nodes document start branches merge tail).Proper where
  distinct := by
    have places := document.nodup_places isFan.distinct isFan.declared
    cases start <;> simpa [nodes, outset, FanStart.nodeIds, Outset.nodes] using places
  several := isFan.several.trans_eq (List.length_map _).symm

theorem nodup_hops : (nodes document start branches merge tail).layers.flatten.Nodup :=
  (Fan.layered isFan.proper).nodup_flatten (Fan.nodup_of_mem_layers isFan.proper)

end Declared

section Loaded

variable (loaded : Workflow.load document = .ok workflow)
  (isFan : document.IsFan start branches merge tail)
include loaded isFan

theorem leaf_eq {id : String} (present : id ∈ start.nodeIds ++ (branches ++ merge :: tail)) :
    leaf document id = .node (document.place id) := by
  rw [leaf, (Workflow.loadable_of_load loaded).triggerOf?_eq_none (isFan.declared id present)]

theorem origin_eq {id : String} (present : id ∈ start.nodeIds ++ (branches ++ merge :: tail)) :
    origin document id = some (.node (document.place id)) := by
  rw [origin, if_neg (isFan.notEntry id present), leaf_eq loaded isFan present]

private theorem origin_start : origin document start.id = (outset document start).leaving := by
  cases start with
  | entrypoint id => exact if_pos isFan.begins.1
  | trigger id =>
      obtain ⟨triggerId, found, differs, isOutset⟩ :=
        isFan.triggerOf?_eq_some (List.mem_singleton_self id)
      rw [isOutset, FanStart.id, origin, if_neg differs, leaf, found]
      rfl
  | node entry id => exact origin_eq loaded isFan List.mem_cons_self

theorem resolve_eq {edge : EdgeEntry} (present : edge ∈ document.edges) :
    document.resolve edge = .ok (hopOf (origin document) document.place
      (edge.sourceNode, edge.targetNode)) := by
  obtain ⟨isSource, isTarget⟩ := isFan.ends_mem present
  unfold Document.resolve
  rw [isFan.nodeOf?_eq_some isTarget]
  by_cases atEntry : document.entrypoint = some edge.sourceNode
  · simp [hopOf, origin, atEntry]
  · dsimp only
    rw [if_neg atEntry, hopOf, origin, if_neg atEntry]
    rcases isSource.resolve_left (mt isFan.entrypoint_eq atEntry) with isTrigger | isNode
    · obtain ⟨triggerId, found, _⟩ := isFan.triggerOf?_eq_some isTrigger
      rw [leaf, found]
    · rw [leaf_eq loaded isFan isNode, isFan.nodeOf?_eq_some isNode,
        (Workflow.loadable_of_load loaded).triggerOf?_eq_none (isFan.declared _ isNode),
        isFan.portless edge present isNode]
      rfl

theorem map_links :
    (start.links ++ (branches.map (fun id => (start.id, id)) ++
        (branches.map (fun id => (id, merge)) ++ linksAlong merge tail))).map
      (hopOf (origin document) document.place) =
    (nodes document start branches merge tail).layers.flatten := by
  have toNode : start.links.map (hopOf (origin document) document.place) =
      hopsFrom none (outset document start).nodes := by
    cases start with
    | node entry id =>
        have atEntry : origin document entry = none := if_pos isFan.begins.1
        exact congrArg (fun source => [ResolvedEdge.mk source (document.place id)]) atEntry
    | _ => rfl
  have spreading : (branches.map fun id => (start.id, id)).map
        (hopOf (origin document) document.place) =
      (nodes document start branches merge tail).spreading := by
    rw [Fan.spreading, nodes, List.map_map, List.map_map]
    exact List.map_congr_left fun id _ =>
      congrArg (ResolvedEdge.mk · (document.place id)) (origin_start loaded isFan)
  have gathering : (branches.map fun id => (id, merge)).map
        (hopOf (origin document) document.place) =
      (nodes document start branches merge tail).gathering := by
    rw [Fan.gathering, nodes, List.map_map, List.map_map]
    refine List.map_congr_left fun id isBranch => ?_
    exact congrArg (ResolvedEdge.mk · (document.place merge))
      (origin_eq loaded isFan (by simp [isBranch]))
  have following : (linksAlong merge tail).map (hopOf (origin document) document.place) =
      hopsFrom (some (.node (document.place merge))) (tail.map document.place) := by
    rw [map_linksAlong, origin_eq loaded isFan (by simp)]
    intro id present
    exact origin_eq loaded isFan (by simp [List.dropLast_subset tail present])
  rw [List.map_append, List.map_append, List.map_append, toNode, spreading, gathering, following,
    Fan.flatten_layers]
  rfl

theorem perm_hops : (document.edges.map document.resolve).Perm
    ((nodes document start branches merge tail).layers.flatten.map .ok) := by
  have resolved : document.edges.map document.resolve =
      ((document.edges.map fun edge => (edge.sourceNode, edge.targetNode)).map
        (hopOf (origin document) document.place)).map .ok := by
    rw [List.map_map, List.map_map]
    exact List.map_congr_left fun edge present => resolve_eq loaded isFan present
  rw [resolved, ← map_links loaded isFan]
  exact (isFan.edges.map _).map _

theorem draws : workflow.Draws (nodes document start branches merge tail).layers.flatten := by
  apply Workflow.draws_of_load loaded (perm_hops loaded isFan) isFan.nodup_hops
  · intro hop isHop fromEntry
    cases start with
    | trigger id =>
        rcases Fan.mem_layers.mp isHop with impossible | isLater
        · cases impossible
        · obtain ⟨leaving, isSource⟩ := Fan.exists_source rfl isLater
          rw [fromEntry] at isSource
          cases isSource
    | _ => exact isFan.begins.2
  · intro edge present hop isHop fromTarget
    obtain ⟨entering, isEntering, enters⟩ :=
      List.mem_map.mp ((perm_hops loaded isFan).mem_iff.mpr (List.mem_map_of_mem isHop))
    rw [resolve_eq loaded isFan isEntering] at enters
    cases enters
    have isListed := (isFan.ends_mem isEntering).2
    have sameId := document.eq_of_nodeOf? fromTarget (isFan.nodeOf?_eq_some isListed)
    refine ⟨document.place edge.targetNode, ?_⟩
    rw [resolve_eq loaded isFan present, hopOf, sameId, origin_eq loaded isFan isListed]
    rfl

private theorem entryTriggers_eq :
    (entryTriggers workflow).eraseDups =
      (nodes document start branches merge tail).outset.starts := by
  have written := Workflow.written_of_load loaded
  cases start with
  | trigger id =>
      obtain ⟨triggerId, found, _, isOutset⟩ :=
        isFan.triggerOf?_eq_some (List.mem_singleton_self id)
      rw [nodes, isOutset]
      apply eraseDups_eq_singleton
      · obtain ⟨edge, isEdge, isSource⟩ := isFan.exists_leaving_start
        have declared : document.triggerOf? edge.sourceNode = some triggerId := by
          rw [isSource]
          exact found
        exact List.ne_nil_of_mem (written.mem_entryTriggers_iff.mpr
          ⟨edge, isEdge, triggerId, declared, rfl⟩)
      · intro head isHead
        obtain ⟨edge, isEdge, other, isOther, rfl⟩ := written.mem_entryTriggers_iff.mp isHead
        rcases (isFan.ends_mem isEdge).1 with impossible | isTrigger | isNode
        · cases impossible
        · rw [List.mem_singleton.mp isTrigger, found] at isOther
          rw [Option.some.inj isOther]
        · rw [(Workflow.loadable_of_load loaded).triggerOf?_eq_none (isFan.declared _ isNode)]
            at isOther
          cases isOther
  | _ =>
      have none : entryTriggers workflow = [] := by
        refine List.eq_nil_iff_forall_not_mem.mpr fun head isHead => ?_
        obtain ⟨edge, _, triggerId, declared, _⟩ := written.mem_entryTriggers_iff.mp isHead
        rw [Document.triggerOf?, isFan.begins.2] at declared
        cases declared
      rw [none]
      rfl

private theorem leafOf_of_node {id : String}
    (present : id ∈ start.nodeIds ++ (branches ++ merge :: tail)) :
    leafOf document id = .node (document.place id) := by
  rw [leafOf, leaf_eq loaded isFan present]
  rfl

private theorem shape_eq : (nodes document start branches merge tail).shape =
    chain ((start.triggerIds ++ start.nodeIds).map (leafOf document) ++
      [.set (branches.map (leafOf document)), leafOf document merge] ++
        tail.map (leafOf document)) := by
  have front : (start.triggerIds ++ start.nodeIds).map (leafOf document) =
      (outset document start).steps := by
    cases start with
    | entrypoint id => rfl
    | trigger id =>
        obtain ⟨triggerId, found, _, isOutset⟩ :=
          isFan.triggerOf?_eq_some (List.mem_singleton_self id)
        rw [isOutset]
        exact congrArg (fun leaf => [leaf]) (leafOf_of_trigger found)
    | node entry id =>
        exact congrArg (fun leaf => [leaf]) (leafOf_of_node loaded isFan List.mem_cons_self)
  have among : ∀ ids ⊆ start.nodeIds ++ (branches ++ merge :: tail),
      ids.map (leafOf document) = (ids.map document.place).map .node := by
    intro ids inside
    rw [List.map_map]
    exact List.map_congr_left fun id present => leafOf_of_node loaded isFan (inside present)
  rw [front, among branches (by simp), leafOf_of_node loaded isFan (by simp), among tail]
  · rfl
  · exact fun id present => by simp [present]

end Loaded

end Document.IsFan

/-! ### Main result -/

/-- A document whose edges form a fan compiles to the main expression alone, and that is what the
branches leave, the branches side by side, the node where they meet and the tail, up to the order
of the branches. -/
theorem compile_of_isFan {document : Document} {workflow : Workflow}
    (loaded : Workflow.load document = .ok workflow) {start : FanStart} {branches : List String}
    {merge : String} {tail : List String} (isFan : document.IsFan start branches merge tail) :
    workflow.compile.components = [] ∧
      ∃ leafOf : String → Expr,
        (∀ id ∈ start.triggerIds,
          (workflow.findTrigger? id).map Expr.trigger = some (leafOf id)) ∧
        (∀ id ∈ start.nodeIds ++ (branches ++ merge :: tail),
          (workflow.findNode? id).map Expr.node = some (leafOf id)) ∧
        workflow.compile.main.canonical =
          (chain ((start.triggerIds ++ start.nodeIds).map leafOf ++
            [.set (branches.map leafOf), leafOf merge] ++ tail.map leafOf)).canonical := by
  have written := Workflow.written_of_load loaded
  obtain ⟨noComponents, main⟩ := Fan.compile (Workflow.coherent_of_load loaded)
    (Workflow.complete_of_load loaded) isFan.proper (Document.IsFan.draws loaded isFan)
    (Document.IsFan.entryTriggers_eq loaded isFan)
  refine ⟨noComponents, Document.IsFan.leafOf document, ?_, ?_, ?_⟩
  · intro id present
    obtain ⟨triggerId, found, _⟩ := isFan.triggerOf?_eq_some present
    rw [written.findTrigger?_eq, found, Document.IsFan.leafOf_of_trigger found]
    rfl
  · intro id present
    rw [written.findNode?_eq, isFan.nodeOf?_eq_some present,
      Document.IsFan.leafOf_of_node loaded isFan present]
    rfl
  · rw [main, Document.IsFan.shape_eq loaded isFan]

def threeBranches : Document :=
  ((((((((((Document.ofEntrypoint "entry").addTrigger "u").addTrigger "t").addNodes
    ["e", "c", "m", "a", "b"]).addEdge "b" "m").addEdge "m" "e").addEdge "t" "c").addEdge
      "a" "m").addEdge "t" "a").addEdge "c" "m").addEdge "t" "b"

/-- The branches come in as their edges are written, and `m` only once behind all of them. -/
theorem compile_of_isFan_threeBranches :
    ∃ workflow, Workflow.load threeBranches = .ok workflow ∧
      threeBranches.IsFan (.trigger "t") ["a", "b", "c"] "m" ["e"] ∧
      workflow.compile.components = [] ∧
      workflow.compile.main = .sequence (.sequence (.sequence (.trigger ⟨1⟩)
        (.set [.node ⟨1⟩, .node ⟨3⟩, .node ⟨4⟩])) (.node ⟨2⟩)) (.node ⟨0⟩) ∧
      ∃ leafOf : String → Expr, leafOf "t" = .trigger ⟨1⟩ ∧ leafOf "c" = .node ⟨1⟩ ∧
        workflow.compile.main.canonical = (chain [leafOf "t",
          .set [leafOf "a", leafOf "b", leafOf "c"], leafOf "m", leafOf "e"]).canonical := by
  have evaluated : ((Workflow.load threeBranches).toOption.map fun workflow =>
      (workflow.compile.main, workflow.findTrigger? "t", workflow.findNode? "c")) =
      some (.sequence (.sequence (.sequence (.trigger ⟨1⟩)
        (.set [.node ⟨1⟩, .node ⟨3⟩, .node ⟨4⟩])) (.node ⟨2⟩)) (.node ⟨0⟩), some ⟨1⟩,
        some ⟨1⟩) := by
    decide +kernel
  obtain ⟨workflow, loaded, views⟩ := Workflow.exists_load_of_map_toOption evaluated
  obtain ⟨main, finds⟩ := Prod.mk.inj views
  obtain ⟨isTrigger, isNode⟩ := Prod.mk.inj finds
  have isFan : threeBranches.IsFan (.trigger "t") ["a", "b", "c"] "m" ["e"] := by
    refine ⟨⟨?_, ?_⟩, ?_, ?_, ?_, ?_, ?_, ?_⟩
    all_goals decide +kernel
  obtain ⟨noComponents, leafOf, triggers, nodes, shape⟩ := compile_of_isFan loaded isFan
  have ofTrigger := triggers "t" List.mem_cons_self
  have ofNode := nodes "c" (by decide +kernel)
  rw [isTrigger] at ofTrigger
  rw [isNode] at ofNode
  exact ⟨workflow, loaded, isFan, noComponents, main, leafOf, (Option.some.inj ofTrigger).symm,
    (Option.some.inj ofNode).symm, shape⟩

end FlowGraph
