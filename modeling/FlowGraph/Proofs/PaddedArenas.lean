import FlowGraph.Proofs.AgreeingRewrites
import FlowGraph.Proofs.FaithfulLoading
import FlowGraph.Proofs.StoredLeaves

/-!
Nothing behind the end of an arena is ever looked at. Where a lookup of a missing entry would
have to fail, all that compiling and rendering can see of a loaded workflow is what it stores:
any other entries that stand behind its nodes, ports and triggers leave the result as it is.
-/

namespace FlowGraph

open FlowGraph.Expr

/-! ### Expressions of known leaves -/

section Leaves

variable {hasDefaultExit other : NodeId → Bool} {known : Reference → Prop}
  (same : ∀ node, known (.node node) → hasDefaultExit node = other node)
include same

private theorem entries_congr {expr : Expr} (within : ∀ leaf ∈ expr.leaves, known leaf) :
    expr.entries hasDefaultExit = expr.entries other := by
  induction expr with
  | node nodeId =>
      rw [entries, entries, same nodeId (within _ (List.mem_singleton.mpr rfl))]
  | sequence first second ihFirst _ =>
      exact ihFirst fun leaf isLeaf => within leaf (List.mem_append_left _ isLeaf)
  | set members ih =>
      rw [entries, entries]
      induction members with
      | nil => rfl
      | cons member members ihMembers =>
          have ofMember := ih member List.mem_cons_self fun leaf isLeaf =>
            within leaf (List.mem_append_left _ isLeaf)
          have ofMembers := ihMembers
            (fun later inRest => ih later (List.mem_cons_of_mem member inRest))
            fun leaf isLeaf => within leaf (List.mem_append_right member.leaves isLeaf)
          rw [entriesOfAll, entriesOfAll, ofMember, ofMembers]
  | _ => rfl

private theorem subsumed_congr {members : List Expr}
    (within : ∀ member ∈ members, ∀ leaf ∈ member.leaves, known leaf) :
    subsumed hasDefaultExit members = subsumed other members := by
  funext member
  unfold subsumed
  split
  · rfl
  · rw [Bool.eq_iff_iff, List.any_eq_true, List.any_eq_true]
    apply exists_congr
    intro begun
    apply and_congr_right
    intro present
    rw [entries_congr same (within begun present)]

omit same in
private theorem within_inlined {members : List Expr}
    (within : ∀ member ∈ members, ∀ leaf ∈ member.leaves, known leaf) :
    ∀ piece ∈ inlined members, ∀ leaf ∈ piece.leaves, known leaf := by
  intro piece isPiece leaf isLeaf
  obtain ⟨member, present, inSpread⟩ := mem_inlined.mp isPiece
  exact within member present leaf (mem_leaves_of_mem_spread inSpread isLeaf)

/-- Rewrites ask for default exits of nodes that are leaves only. -/
theorem rewriteAgreement_leaves : RewriteAgreement hasDefaultExit other
    (fun expr => expr.Solid ∧ ∀ leaf ∈ expr.leaves, known leaf) where
  toRewriteInvariant := rewriteInvariant_leaves hasDefaultExit known
  flatten_eq := by
    intro members held
    have within : ∀ member ∈ members, ∀ leaf ∈ member.leaves, known leaf := by
      intro member present leaf isLeaf
      have occupied : member ≠ .empty := by
        rintro rfl
        cases isLeaf
      exact (held member present occupied).2 leaf isLeaf
    rw [flatten, flatten, subsumed_congr same (within_inlined within)]
  branching_eq := by
    intro members held
    rw [branching?, branching?,
      subsumed_congr same (within_inlined fun member present => (held member present).2)]

end Leaves

/-! ### Closed arenas -/

namespace Workflow

/-- Whatever is looked up in a table or read off an entry is stored. -/
structure Closed (workflow : Workflow) : Prop where
  nodes : ∀ {ident node}, workflow.lookupNode? ident = some node → workflow.Stores (.node node)
  ports : ∀ {ident port}, workflow.lookupPort? ident = some port →
    ∃ entry, workflow.port? port = some entry
  triggers : ∀ {ident trigger}, workflow.lookupTrigger? ident = some trigger →
    workflow.Stores (.trigger trigger)
  listed : ∀ {node entry}, workflow.node? node = some entry → ∀ port ∈ entry.ports,
    ∃ portEntry, workflow.port? port = some portEntry
  defaultPort : ∀ {node entry port}, workflow.node? node = some entry →
    entry.defaultPort = some port → ∃ portEntry, workflow.port? port = some portEntry
  owner : ∀ {port entry}, workflow.port? port = some entry → workflow.Stores (.node entry.node)

theorem Written.closed {workflow : Workflow} {document : Document}
    (written : workflow.Written document) : workflow.Closed where
  nodes := stores_of_lookupNode? written.coherent
  ports := by
    intro ident port declared
    obtain ⟨entry, isPort, _⟩ := written.coherent.portStored declared
    exact ⟨entry, isPort⟩
  triggers := written.stores_of_lookupTrigger?
  listed := by
    intro node entry isNode port listed
    obtain ⟨portEntry, isPort, _⟩ := written.coherent.portsOwned isNode listed
    exact ⟨portEntry, isPort⟩
  defaultPort := by
    intro node entry port isNode isDefault
    obtain ⟨_, _, reads⟩ := written.exists_nodeEntry isNode
    have ofDefault := reads.defaultPort
    rw [isDefault] at ofDefault
    rcases rel_cases ofDefault with ⟨_, impossible⟩ | ⟨_, _, _, ⟨rfl⟩, portEntry, isPort, _⟩
    · cases impossible
    · exact ⟨portEntry, isPort⟩
  owner := by
    intro port entry isPort
    obtain ⟨_, atPlace, reads⟩ := written.exists_portEntry isPort
    obtain ⟨nodeEntry, isEntry, _⟩ :=
      Document.mem_portEntries.mp (List.mem_of_getElem? atPlace)
    rw [← reads.node] at isEntry
    have found := (written.findNode?_eq_some nodeEntry.id entry.node).mpr ⟨_, isEntry, rfl⟩
    obtain ⟨_, _, declared⟩ := Option.bind_eq_some_iff.mp found
    exact stores_of_lookupNode? written.coherent declared

/-! ### Lookups beside other entries -/

/-- A workflow with other entries behind those of a first one. There are triggers in both or in
none, as a workflow is not left through its entrypoint if it has a trigger. -/
structure Pads (workflow padded : Workflow) : Prop where
  nodes : ∀ {node entry}, workflow.node? node = some entry → padded.node? node = some entry
  ports : ∀ {port entry}, workflow.port? port = some entry → padded.port? port = some entry
  triggers : ∀ {trigger entry}, workflow.trigger? trigger = some entry →
    padded.trigger? trigger = some entry
  hasTriggers : padded.hasTriggers = workflow.hasTriggers
  edges : padded.edges = workflow.edges
  names : padded.names = workflow.names
  nodeTable : padded.nodeTable = workflow.nodeTable
  portTable : padded.portTable = workflow.portTable
  triggerTable : padded.triggerTable = workflow.triggerTable
  entrypoint : padded.entrypoint = workflow.entrypoint

theorem pads_push (workflow : Workflow) (node : Node) (port : Port) :
    workflow.Pads { workflow with
      nodes := workflow.nodes.push node, ports := workflow.ports.push port } where
  nodes := fun isNode => Arena.get?_push_of_get? node isNode
  ports := fun isPort => Arena.get?_push_of_get? port isPort
  triggers := id
  hasTriggers := rfl
  edges := rfl
  names := rfl
  nodeTable := rfl
  portTable := rfl
  triggerTable := rfl
  entrypoint := rfl

namespace Pads

variable {workflow padded : Workflow} (pads : workflow.Pads padded)
include pads

theorem edge? : padded.edge? = workflow.edge? := by
  funext edge
  rw [Workflow.edge?, Workflow.edge?, pads.edges]

theorem lookupNode? : padded.lookupNode? = workflow.lookupNode? := by
  funext ident
  rw [Workflow.lookupNode?, Workflow.lookupNode?, pads.nodeTable]

theorem lookupPort? : padded.lookupPort? = workflow.lookupPort? := by
  funext ident
  rw [Workflow.lookupPort?, Workflow.lookupPort?, pads.portTable]

theorem lookupTrigger? : padded.lookupTrigger? = workflow.lookupTrigger? := by
  funext ident
  rw [Workflow.lookupTrigger?, Workflow.lookupTrigger?, pads.triggerTable]

theorem isEntrypoint : padded.isEntrypoint = workflow.isEntrypoint := by
  funext ident
  rw [Workflow.isEntrypoint, Workflow.isEntrypoint, pads.entrypoint]

theorem origin? : padded.origin? = workflow.origin? := by
  funext ident
  rw [Workflow.origin?, Workflow.origin?, pads.isEntrypoint, pads.lookupTrigger?, pads.lookupNode?]

theorem edgesWhere : padded.edgesWhere = workflow.edgesWhere := by
  funext test
  rw [Workflow.edgesWhere, Workflow.edgesWhere, pads.edges]

theorem entryEdges : padded.entryEdges = workflow.entryEdges := by
  have sameTest : padded.isEntryEdge = workflow.isEntryEdge := by
    funext edge
    rw [isEntryEdge, isEntryEdge, pads.hasTriggers, pads.lookupTrigger?, pads.isEntrypoint]
  rw [Workflow.entryEdges, Workflow.entryEdges, pads.edgesWhere, sameTest]

section Nodes

variable {node : NodeId} (stored : workflow.Stores (.node node))
include stored

theorem node? : padded.node? node = workflow.node? node := by
  obtain ⟨entry, isNode⟩ := stored
  rw [isNode, pads.nodes isNode]

theorem portsOf : padded.portsOf node = workflow.portsOf node := by
  rw [Workflow.portsOf, Workflow.portsOf, pads.node? stored]

theorem defaultPortOf? : padded.defaultPortOf? node = workflow.defaultPortOf? node := by
  rw [Workflow.defaultPortOf?, Workflow.defaultPortOf?, pads.node? stored]

theorem hasDefaultExit : padded.hasDefaultExit node = workflow.hasDefaultExit node := by
  rw [Workflow.hasDefaultExit, Workflow.hasDefaultExit, pads.portsOf stored,
    pads.defaultPortOf? stored]

theorem hasLink {target : NodeId} (targetStored : workflow.Stores (.node target)) :
    padded.hasLink target node = workflow.hasLink target node := by
  rw [Workflow.hasLink, Workflow.hasLink, pads.node? stored, pads.node? targetStored, pads.edges]

theorem outgoing (closed : workflow.Closed) : padded.outgoing node = workflow.outgoing node := by
  have samePorts : (workflow.portsOf node).flatMap padded.edgesThroughPort =
      (workflow.portsOf node).flatMap workflow.edgesThroughPort := by
    apply List.flatMap_congr
    intro port listed
    obtain ⟨entry, isNode⟩ := stored
    rw [Workflow.portsOf, isNode] at listed
    obtain ⟨portEntry, isPort⟩ := closed.listed isNode port listed
    rw [edgesThroughPort, edgesThroughPort, isPort, pads.ports isPort, pads.edgesWhere]
  rw [Workflow.outgoing, Workflow.outgoing, pads.portsOf stored, samePorts, portlessEdges,
    portlessEdges, pads.node? stored, pads.edgesWhere]

theorem exitThrough? (closed : workflow.Closed) (port : Option IdentId) :
    padded.exitThrough? node port = workflow.exitThrough? node port := by
  cases port with
  | none => rfl
  | some ident =>
      rw [Workflow.exitThrough?, Workflow.exitThrough?, pads.lookupPort?]
      cases declared : workflow.lookupPort? ident with
      | none => rfl
      | some port =>
          obtain ⟨entry, isPort⟩ := closed.ports declared
          dsimp only
          rw [pads.ports isPort, isPort, pads.defaultPortOf? stored]

end Nodes

theorem resolveEdge (closed : workflow.Closed) :
    padded.resolveEdge = workflow.resolveEdge := by
  funext edge
  rw [Workflow.resolveEdge, Workflow.resolveEdge, pads.edge?]
  cases workflow.edge? edge with
  | none => rfl
  | some entry =>
      dsimp only
      rw [resolve, resolve, targetNode?, targetNode?, pads.lookupNode?, pads.origin?]
      cases workflow.lookupNode? entry.targetNode with
      | none => rfl
      | some target =>
          cases found : workflow.origin? entry.sourceNode with
          | none => rfl
          | some origin =>
              cases origin with
              | node node =>
                  have stored := closed.nodes (lookupNode?_of_origin? found)
                  dsimp only
                  rw [pads.exitThrough? stored closed]
              | _ => rfl

end Pads

end Workflow

/-! ### Builds -/

namespace Build

variable {workflow padded : Workflow} {document : Document} {holds : Expr → Prop}
  (written : workflow.Written document) (pads : workflow.Pads padded)

section Visited

variable (invariant : BuildInvariant workflow holds)
  (agree : RewriteAgreement workflow.hasDefaultExit padded.hasDefaultExit holds)
include written pads invariant agree

private theorem foldAtTop_of_pads {edge : EdgeId} {resolved : ResolvedEdge}
    (resolves : workflow.resolveEdge edge = .ok resolved) {expr : Expr}
    (held : expr.EmptyOr holds) :
    padded.surroundings.foldAtTop resolved.source resolved.target expr =
      workflow.surroundings.foldAtTop resolved.source resolved.target expr := by
  rcases held with rfl | held
  · rfl
  obtain ⟨targetStored, sourceStored⟩ := written.stores_of_resolveEdge resolves
  have ofSource : ∀ leaving, resolved.source = some leaving → holds (ofReference leaving) := by
    intro leaving isSource
    obtain ⟨source, target⟩ := resolved
    cases isSource
    exact (invariant.source resolves).1
  calc padded.surroundings.foldAtTop resolved.source resolved.target expr
      = Surroundings.fold ⟨padded.hasDefaultExit, workflow.hasLink⟩ resolved.source
          resolved.target .entry expr := by
        apply Surroundings.fold_congr_hasLink
        intro node isNode
        obtain ⟨leaving, isSource, isLeaving⟩ := Option.bind_eq_some_iff.mp isNode
        exact pads.hasLink ((sourceStored leaving isSource).node isLeaving) targetStored
    _ = workflow.surroundings.foldAtTop resolved.source resolved.target expr :=
        (agree.fold_eq (invariant.target resolves) ofSource held .entry).symm

private theorem step_of_pads (edge : EdgeId) {build : Build} (held : build.expr.EmptyOr holds) :
    build.step padded edge = build.step workflow edge := by
  rw [step, step, pads.resolveEdge written.closed]
  cases resolves : workflow.resolveEdge edge with
  | error cause => rfl
  | ok resolved =>
      have targetStored := (written.stores_of_resolveEdge resolves).1
      dsimp only
      rw [place, place, foldAtTop_of_pads written pads invariant agree resolves held, follow,
        follow, pads.outgoing targetStored written.closed]

private theorem drain_of_pads {build : Build} (held : build.expr.EmptyOr holds) :
    build.drain padded = build.drain workflow := by
  fun_induction Build.drain workflow build with
  | case1 build fresh queueIs => exact drain_of_pending_eq_nil padded (by rw [queueIs])
  | case2 build edge pending fresh queueIs ih =>
      have waits : build.queue.pending = edge :: pending := by rw [queueIs]
      have sameStep : { build with queue := ⟨pending, fresh⟩ }.step padded edge =
          { build with queue := ⟨pending, fresh⟩ }.step workflow edge :=
        step_of_pads written pads invariant agree edge held
      rw [drain_of_pending_eq_cons padded waits, queueIs, sameStep]
      exact ih (invariant.step edge held)

omit invariant agree in
private theorem seed_of_pads : seed padded = seed workflow := by
  funext edge progress
  rw [seed, seed, pads.resolveEdge written.closed]

private theorem restart_of_pads (edge : EdgeId) (fresh : List EdgeId) {build : Build}
    (held : build.expr.EmptyOr holds) :
    build.restart padded edge fresh = build.restart workflow edge fresh := by
  have isOwner := fst_seed workflow edge build.progress
  rw [restart, restart, seed_of_pads written pads]
  rcases seeded : seed workflow edge build.progress with ⟨leaf, progress⟩
  rw [seeded] at isOwner
  cases leaf with
  | none => rfl
  | some leaf =>
      obtain ⟨owner, found, rfl⟩ := Option.map_eq_some_iff.mp isOwner.symm
      dsimp only
      rw [agree.flatten_eq]
      intro member present occupied
      rcases List.mem_cons.mp present with rfl | last
      · exact held.resolve_left occupied
      · rw [List.mem_singleton.mp last]
        exact invariant.sourceOwner found

private theorem refill_of_pads (first : EdgeId) (rest : List EdgeId) {build : Build}
    (held : build.expr.EmptyOr holds) :
    build.refill padded first rest = build.refill workflow first rest := by
  have sameAttach : canAttach padded build.expr = canAttach workflow build.expr := by
    funext edge
    unfold canAttach holdsSource
    rw [pads.edge?, pads.origin?]
  rw [refill, refill, sameAttach, restart_of_pads written pads invariant agree first rest held]

private theorem exhaust_of_pads {build : Build} (held : build.expr.EmptyOr holds) :
    build.exhaust padded = build.exhaust workflow := by
  fun_induction Build.exhaust workflow build with
  | case1 build pending queueIs => exact exhaust_of_fresh_eq_nil padded (by rw [queueIs])
  | case2 build pending first rest queueIs ih =>
      have isFresh : build.queue.fresh = first :: rest := by rw [queueIs]
      have refilled := invariant.refill first rest held
      rw [exhaust_of_fresh_eq_cons padded isFresh,
        refill_of_pads written pads invariant agree first rest held,
        drain_of_pads written pads invariant agree refilled]
      exact ih (invariant.visits Visits.start.drain refilled)

/-! ### Main builds and components -/

private theorem main_of_pads (progress : Progress) :
    main padded progress = main workflow progress := by
  have sameStart : mainStart padded progress = mainStart workflow progress := by
    have sameTriggers : entryTriggers padded = entryTriggers workflow := by
      rw [entryTriggers, entryTriggers, pads.entryEdges, pads.edge?, pads.lookupTrigger?]
    rw [mainStart, mainStart, pads.entryEdges, pads.edges, sameTriggers, agree.flatten_eq]
    intro member image _
    obtain ⟨trigger, isStart, rfl⟩ := List.mem_map.mp image
    obtain ⟨_, _, _, _, _, declared, rfl⟩ := mem_entryTriggers.mp isStart
    exact invariant.trigger declared
  rw [main_eq, main_eq, sameStart,
    drain_of_pads written pads invariant agree (invariant.mainStart progress)]

private theorem component_of_pads (group : Component) (progress : Progress) :
    component padded group progress = component workflow group progress := by
  have sameSeeds : ∀ edges progress,
      seeds padded progress edges = seeds workflow progress edges := by
    intro edges
    induction edges with
    | nil => exact fun _ => rfl
    | cons edge edges ih =>
        intro progress
        rw [seeds, seeds, seed_of_pads written pads]
        simp only [ih]
  have sameStart : ofRoots padded group progress = ofRoots workflow group progress := by
    rw [ofRoots, ofRoots, sameSeeds]
    dsimp only
    rw [fst_seeds, agree.flatten_eq]
    intro member image _
    obtain ⟨owner, isRoot, rfl⟩ := List.mem_map.mp image
    obtain ⟨_, _, found⟩ := List.mem_filterMap.mp isRoot
    exact invariant.sourceOwner found
  have held := invariant.ofRoots group progress
  rw [component, component, sameStart, drain_of_pads written pads invariant agree held]
  exact exhaust_of_pads written pads invariant agree (invariant.visits Visits.start.drain held)

private theorem componentsFrom_of_pads (groups : List Component) (progress : Progress)
    (index : Nat) :
    componentsFrom padded progress index groups =
      componentsFrom workflow progress index groups := by
  induction groups generalizing progress index with
  | nil => rfl
  | cons group groups ih =>
      rw [componentsFrom, componentsFrom, component_of_pads written pads invariant agree]
      simp only [ih]

end Visited

end Build

/-- Other entries behind the arenas of a loaded workflow are of no consequence: no lookup of
an entry that is not there has any influence on what is compiled. -/
theorem Workflow.Written.compile_of_pads {workflow padded : Workflow} {document : Document}
    (written : workflow.Written document) (pads : workflow.Pads padded) :
    padded.compile = workflow.compile := by
  have invariant := written.buildInvariant_stores
  have agree : RewriteAgreement workflow.hasDefaultExit padded.hasDefaultExit
      (fun expr => expr.Solid ∧ ∀ leaf ∈ expr.leaves, workflow.Stores leaf) :=
    rewriteAgreement_leaves fun _ stored => (pads.hasDefaultExit stored).symm
  have sameMain : padded.mainBuild = workflow.mainBuild := by
    rw [Workflow.mainBuild, Workflow.mainBuild, pads.edges, pads.entryEdges, pads.hasTriggers]
    exact Build.main_of_pads written pads invariant agree _
  have sameComponents : Build.components padded workflow.mainBuild.progress =
      Build.components workflow workflow.mainBuild.progress := by
    unfold Build.components Build.leftover
    simp only [pads.edges, Build.componentsFrom_of_pads written pads invariant agree]
  rw [Workflow.compile, Workflow.compile, sameMain, sameComponents, pads.edges]

end FlowGraph
