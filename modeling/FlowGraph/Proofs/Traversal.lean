import FlowGraph.Proofs.Compiling
import FlowGraph.Proofs.VisitedBuilds
import Mathlib.Logic.Function.Iterate

/-!
Which edges are worked on, and how often. The main build processes the edges that can be
reached from the entry edges, and the components' builds process what it leaves over. An
edge is processed once: it is taken from a queue, or set aside if it dangles and nothing
leads to it.
-/

namespace FlowGraph

open FlowGraph.Expr

/-! ### The edges of the main build -/

/-- The least set of edges that holds the entry edges and, with an edge that resolves, all
edges that leave its target. -/
inductive Workflow.Reached (workflow : Workflow) : EdgeId → Prop where
  | entry {edge : EdgeId} (isEntry : edge ∈ workflow.entryEdges) : Reached workflow edge
  | onward {edge next : EdgeId} {resolved : ResolvedEdge} (reached : Reached workflow edge)
      (resolves : workflow.resolveEdge edge = .ok resolved)
      (leaves : next ∈ workflow.outgoing resolved.target) : Reached workflow next

private theorem Workflow.mem_edge_ids_of_mem_outgoing {workflow : Workflow}
    (coherent : workflow.Coherent)
    {edge : EdgeId} {node : NodeId} (leaves : edge ∈ workflow.outgoing node) :
    edge ∈ workflow.edges.ids := by
  have fits := Nat.le_of_lt coherent.edgesFit
  rw [Arena.mem_ids fits]
  rcases mem_outgoing.mp leaves with ⟨port, _, throughPort⟩ | portless
  · obtain ⟨_, entry, _, found, _⟩ := (mem_edgesThroughPort coherent).mp throughPort
    exact ⟨entry, found⟩
  · obtain ⟨_, entry, _, found, _⟩ := (mem_portlessEdges coherent).mp portless
    exact ⟨entry, found⟩

namespace Build

variable {workflow : Workflow} {start build : Build}

/-- What holds of a build that goes out from the entry edges: it meets reachable edges
only, and leaves no edge fresh that it has met. -/
structure Explored (workflow : Workflow) (build : Build) : Prop where
  distinct : build.queue.fresh.Nodup
  reached : ∀ edge, edge ∈ build.progress.processed ∨ edge ∈ build.queue.pending →
    workflow.Reached edge
  entriesMet : ∀ edge ∈ workflow.entryEdges, edge ∉ build.queue.fresh
  nextMet : ∀ edge ∈ build.progress.processed, ∀ resolved,
    workflow.resolveEdge edge = .ok resolved →
      ∀ next ∈ workflow.outgoing resolved.target, next ∉ build.queue.fresh

theorem explored_mainStart (coherent : workflow.Coherent) {progress : Progress}
    (unused : progress.processed = []) : Explored workflow (mainStart workflow progress) where
  distinct := (Workflow.nodup_edge_ids coherent).filter _
  reached := by
    intro edge met
    rcases met with isProcessed | waits
    · have none : edge ∈ progress.processed := isProcessed
      rw [unused] at none
      cases none
    · exact .entry waits
  entriesMet := by
    intro edge isEntry isFresh
    simp [mainStart, isEntry] at isFresh
  nextMet := by
    intro edge isProcessed
    have none : edge ∈ progress.processed := isProcessed
    rw [unused] at none
    cases none

theorem explored_step {edge : EdgeId} {pending fresh : List EdgeId}
    (explored : Explored workflow build) (queueIs : build.queue = ⟨edge :: pending, fresh⟩) :
    Explored workflow ({ build with queue := ⟨pending, fresh⟩ }.step workflow edge) := by
  obtain ⟨distinct, reached, entriesMet, nextMet⟩ := explored
  rw [queueIs] at distinct reached entriesMet nextMet
  have edgeReached : workflow.Reached edge := reached edge (Or.inr List.mem_cons_self)
  have queueAfter := queue_step_behind workflow { build with queue := ⟨pending, fresh⟩ } edge
  have sublist := EdgeQueue.fresh_enqueueAll_sublist ⟨pending, fresh⟩ (behind workflow edge)
  refine ⟨?_, ?_, ?_, ?_⟩
  · rw [queueAfter]
    exact distinct.sublist sublist
  · rw [processed_step, queueAfter]
    intro other met
    rcases met with isProcessed | waits
    · rcases List.mem_cons.mp isProcessed with rfl | before
      · exact edgeReached
      · exact reached other (Or.inl before)
    · rcases EdgeQueue.mem_pending_enqueueAll waits with waited | ⟨isBehind, _⟩
      · exact reached other (Or.inr (List.mem_cons_of_mem _ waited))
      · obtain ⟨resolved, resolves, leaves⟩ := mem_behind.mp isBehind
        exact edgeReached.onward resolves leaves
  · rw [queueAfter]
    exact fun other isEntry isFresh => entriesMet other isEntry (sublist.subset isFresh)
  · rw [processed_step, queueAfter]
    intro other isProcessed resolved resolves next leaves
    rcases List.mem_cons.mp isProcessed with rfl | before
    · exact EdgeQueue.not_mem_fresh_enqueueAll distinct (mem_behind.mpr ⟨_, resolves, leaves⟩)
    · exact fun isFresh =>
        nextMet other before resolved resolves next leaves (sublist.subset isFresh)

private theorem explored_drain (explored : Explored workflow build) :
    Explored workflow (build.drain workflow) := by
  fun_induction drain workflow build with
  | case1 build fresh queueIs => exact explored
  | case2 build edge pending fresh queueIs ih => exact ih (explored_step explored queueIs)

theorem pending_mainBuild (workflow : Workflow) : workflow.mainBuild.queue.pending = [] := by
  rw [Workflow.mainBuild, main_eq]
  exact pending_drain workflow _

private theorem mem_processed_of_not_mem_fresh (coherent : workflow.Coherent) {edge : EdgeId}
    (inScope : edge ∈ workflow.edges.ids) (met : edge ∉ workflow.mainBuild.queue.fresh) :
    edge ∈ workflow.mainBuild.progress.processed := by
  have accounts := (Workflow.sound_mainBuild coherent).1.accounts
  rw [pending_mainBuild, List.nil_append] at accounts
  rw [← accounts.mem_iff, List.mem_append] at inScope
  exact inScope.resolve_right met

/-- The main build processes exactly the edges that can be reached. -/
theorem mem_processed_mainBuild (coherent : workflow.Coherent) {edge : EdgeId} :
    edge ∈ workflow.mainBuild.progress.processed ↔ workflow.Reached edge := by
  have explored : Explored workflow workflow.mainBuild := by
    rw [Workflow.mainBuild, main_eq]
    exact explored_drain (explored_mainStart coherent rfl)
  constructor
  · intro isProcessed
    exact explored.reached edge (Or.inl isProcessed)
  · intro reached
    induction reached with
    | entry isEntry => exact (Workflow.sound_mainBuild coherent).2 _ isEntry
    | onward _ resolves leaves ih =>
        exact mem_processed_of_not_mem_fresh coherent
          (Workflow.mem_edge_ids_of_mem_outgoing coherent leaves)
          (explored.nextMet _ ih _ resolves _ leaves)

/-! ### Rounds over a component -/

/-- One round of the loop over what is left of a component: some fresh edges are queued, or
one is set aside, and then the queue is worked through. -/
def round (workflow : Workflow) (build : Build) : Build :=
  match build.queue.fresh with
  | [] => build
  | first :: rest => (build.refill workflow first rest).drain workflow

private theorem fresh_round_length_lt (workflow : Workflow) {first : EdgeId} {rest : List EdgeId}
    (isFresh : build.queue.fresh = first :: rest) :
    (round workflow build).queue.fresh.length < build.queue.fresh.length := by
  rw [round, isFresh]
  exact Nat.lt_of_le_of_lt (fresh_drain_length_le _ _) (fresh_refill_length_lt _ _ _ _)

/-- The loop ends after no more rounds than there are fresh edges. -/
theorem exists_rounds_exhaust (workflow : Workflow) (noneWaits : build.queue.pending = []) :
    ∃ rounds ≤ build.queue.fresh.length,
      (round workflow)^[rounds] build = build.exhaust workflow ∧
        (build.exhaust workflow).queue = ⟨[], []⟩ := by
  fun_induction exhaust workflow build with
  | case1 build pending queueIs =>
      rw [queueIs] at noneWaits
      cases noneWaits
      exact ⟨0, Nat.zero_le _, rfl, queueIs⟩
  | case2 build pending first rest queueIs ih =>
      have isFresh : build.queue.fresh = first :: rest := by rw [queueIs]
      have roundIs : round workflow build = (build.refill workflow first rest).drain workflow := by
        rw [round, isFresh]
      have fewer := fresh_round_length_lt workflow isFresh
      rw [roundIs] at fewer
      obtain ⟨rounds, bound, same, ended⟩ := ih (pending_drain workflow _)
      refine ⟨rounds + 1, by omega, ?_, ended⟩
      rw [Function.iterate_succ_apply, roundIs]
      exact same

private theorem fresh_ofRoots_length_le (workflow : Workflow) (component : Component)
    (progress : Progress) :
    (ofRoots workflow component progress).queue.fresh.length ≤ component.length := by
  have filtered := List.length_filter_le
    (fun edge => !(component.rootEdges.map Prod.fst).contains edge) (component.map Prod.fst)
  rw [List.length_map] at filtered
  exact filtered

end Build

/-! ### The events -/

def Event.processed? : Event → Option EdgeId
  | .taken edge => some edge
  | .skipped edge => some edge
  | _ => none

private theorem count_filterMap_processed (events : List Event) (edge : EdgeId) :
    (events.filterMap Event.processed?).count edge =
      events.count (.taken edge) + events.count (.skipped edge) := by
  induction events with
  | nil => rfl
  | cons event events ih =>
      cases event with
      | taken other =>
          have isTaken : Event.processed? (.taken other) = some other := rfl
          rw [List.filterMap_cons_some isTaken, List.count_cons, List.count_cons,
            List.count_cons, ih]
          simp [Nat.add_right_comm]
      | skipped other =>
          have isSkipped : Event.processed? (.skipped other) = some other := rfl
          rw [List.filterMap_cons_some isSkipped, List.count_cons, List.count_cons,
            List.count_cons, ih]
          simp [Nat.add_assoc]
      | _ =>
          rw [List.filterMap_cons_none rfl, List.count_cons, List.count_cons, ih]
          simp

/-- The events tell which edges were processed and in which order. Only edges that dangle
were set aside. -/
structure Reported (workflow : Workflow) (progress : Progress) : Prop where
  processed : progress.processed =
    (progress.events.toList.filterMap Event.processed?).reverse
  setAside : ∀ edge, .skipped edge ∈ progress.events.toList →
    ∃ cause, workflow.resolveEdge edge = .error cause

namespace Reported

variable {workflow : Workflow} {progress : Progress}

theorem start : Reported workflow Progress.start :=
  ⟨rfl, fun _ impossible => absurd impossible List.not_mem_nil⟩

theorem record (reported : Reported workflow progress) {event : Event}
    (notProcessed : event.processed? = none) : Reported workflow (progress.record event) where
  processed := by
    rw [Progress.record, Array.toList_push, List.filterMap_append,
      List.filterMap_cons_none notProcessed, List.filterMap_nil, List.append_nil]
    exact reported.processed
  setAside := by
    intro edge present
    rw [Progress.record, Array.toList_push] at present
    rcases List.mem_append.mp present with before | last
    · exact reported.setAside edge before
    · rw [← List.mem_singleton.mp last] at notProcessed
      cases notProcessed

theorem process (reported : Reported workflow progress) {edge : EdgeId} {event : Event}
    (isProcessed : event.processed? = some edge)
    (dangles : ∀ other, event = .skipped other →
      ∃ cause, workflow.resolveEdge other = .error cause) :
    Reported workflow ((progress.process edge).record event) where
  processed := by
    rw [Progress.record, Array.toList_push, List.filterMap_append,
      List.filterMap_cons_some isProcessed, List.filterMap_nil, List.reverse_append]
    exact congrArg (edge :: ·) reported.processed
  setAside := by
    intro other present
    rw [Progress.record, Array.toList_push] at present
    rcases List.mem_append.mp present with before | last
    · exact reported.setAside other before
    · exact dangles other (List.mem_singleton.mp last).symm

end Reported

namespace Build

variable {workflow : Workflow} {start build : Build}

private theorem reported_seed (edge : EdgeId) {progress : Progress}
    (reported : Reported workflow progress) :
    Reported workflow (seed workflow edge progress).2 := by
  rcases snd_seed workflow edge progress with same | ⟨cause, recorded⟩
  · rw [same]
    exact reported
  · rw [recorded]
    exact reported.record rfl

private theorem reported_step (edge : EdgeId) (reported : Reported workflow build.progress) :
    Reported workflow (build.step workflow edge).progress := by
  have taken : Reported workflow ((build.progress.process edge).record (.taken edge)) :=
    reported.process rfl nofun
  cases resolves : workflow.resolveEdge edge with
  | error cause =>
      rw [step_of_dangling build resolves]
      exact taken.record rfl
  | ok resolved =>
      cases found : workflow.surroundings.foldAtTop resolved.source resolved.target build.expr with
      | some folded =>
          rw [step_of_placed build resolves found]
          exact taken.record rfl
      | none =>
          rw [step_of_unplaced build resolves found]
          exact taken.record rfl

private theorem reported_refill (first : EdgeId) (rest : List EdgeId)
    (reported : Reported workflow build.progress) :
    Reported workflow (build.refill workflow first rest).progress := by
  unfold refill
  dsimp only
  split
  · exact reported
  · rename_i noneAttaches
    rw [List.any_cons, Bool.or_eq_true, not_or] at noneAttaches
    have leaf := fst_seed workflow first build.progress
    have seeded := reported_seed first reported
    unfold restart
    split
    · rename_i source progress isSeed
      rw [isSeed] at seeded
      exact seeded
    · rename_i progress isSeed
      rw [isSeed] at leaf seeded
      refine seeded.process rfl ?_
      intro other same
      cases same
      exact dangles_of_sourceOwner?_eq_none (Option.map_eq_none_iff.mp leaf.symm)
        (Bool.eq_false_iff.mpr noneAttaches.1)

private theorem Visits.reported (visited : Visits workflow start build)
    (reported : Reported workflow start.progress) : Reported workflow build.progress := by
  induction visited with
  | start => exact reported
  | step _ _ ih => exact reported_step _ ih
  | refill _ _ ih => exact reported_refill _ _ ih

private theorem reported_component (component : Component) {progress : Progress}
    (reported : Reported workflow progress) :
    Reported workflow (Build.component workflow component progress).progress := by
  apply (visits_component workflow component progress).reported
  have seeded := keeps_seeds (fun edge later (held : Reported workflow later) =>
    reported_seed edge held) (component.rootEdges.map Prod.fst) reported
  exact seeded.record rfl

private theorem reported_componentsFrom (groups : List Component) {progress : Progress}
    (index : Nat) (reported : Reported workflow progress) :
    Reported workflow (componentsFrom workflow progress index groups).2 := by
  induction groups generalizing progress index with
  | nil => exact reported
  | cons group groups ih =>
      have built := reported_component group reported
      rw [componentsFrom]
      dsimp only
      split
      · exact ih (index + 1) (built.record rfl)
      · exact ih (index + 1) built

private theorem reported_components {progress : Progress} (reported : Reported workflow progress) :
    Reported workflow (components workflow progress).2 := by
  obtain ⟨started, isStart, same⟩ := components_eq workflow progress
  rw [same]
  apply reported_componentsFrom
  rcases isStart with rfl | ⟨_, _, rfl⟩
  · exact reported
  · exact reported.record rfl

/-! ### All edges -/

private theorem perm_processed_componentsFrom (coherent : workflow.Coherent)
    {groups : List Component} (sound : ∀ group ∈ groups, (group.map Prod.fst).Nodup ∧
      ∀ edge ∈ group.map Prod.fst, edge ∉ workflow.entryEdges)
    (index : Nat) {progress : Progress} (allPlaced : AllPlaced workflow progress.events.toList) :
    (componentsFrom workflow progress index groups).2.processed.Perm
      (groups.flatten.map Prod.fst ++ progress.processed) := by
  induction groups generalizing index progress with
  | nil => exact List.Perm.refl _
  | cons group groups ih =>
      obtain ⟨distinct, noEntry⟩ := sound group List.mem_cons_self
      have soundLater := fun other present => sound other (List.mem_cons_of_mem group present)
      obtain ⟨_, allDone, _, built, all⟩ := sound_component coherent distinct noEntry allPlaced
      have grown : (groups.flatten.map Prod.fst ++
          (Build.component workflow group progress).progress.processed).Perm
            ((group :: groups).flatten.map Prod.fst ++ progress.processed) := by
        rw [built.processed, List.flatten_cons, List.map_append, ← List.append_assoc]
        exact (List.perm_append_comm.trans (all.append_right _)).append_right _
      have omitted : AllPlaced workflow ((Build.component workflow group progress).progress.record
          (.componentOmitted index)).events.toList := built.allPlaced.record nofun nofun
      rw [componentsFrom]
      dsimp only
      split
      · exact (ih soundLater (index + 1) omitted).trans grown
      · exact (ih soundLater (index + 1) built.allPlaced).trans grown

private theorem perm_processed_components (coherent : workflow.Coherent) {progress : Progress}
    (entryDone : ∀ edge ∈ workflow.entryEdges, edge ∈ progress.processed)
    (allPlaced : AllPlaced workflow progress.events.toList) :
    (components workflow progress).2.processed.Perm
      ((leftover workflow progress).map Prod.fst ++ progress.processed) := by
  obtain ⟨started, isStart, same⟩ := components_eq workflow progress
  have startedPlaced : AllPlaced workflow started.events.toList ∧
      started.processed = progress.processed := by
    rcases isStart with rfl | ⟨_, _, rfl⟩
    · exact ⟨allPlaced, rfl⟩
    · exact ⟨allPlaced.record nofun nofun, rfl⟩
  have built := perm_processed_componentsFrom coherent
    (fun group present => nodup_and_noEntry_of_mem_partition coherent entryDone present) 0
    startedPlaced.1
  rw [same, ← startedPlaced.2]
  exact built.trans (((Component.perm_partition _).map Prod.fst).append_right _)

end Build

namespace Workflow

variable {workflow : Workflow}

private theorem reported_compile (workflow : Workflow) :
    Reported workflow workflow.compile.progress := by
  have main : Reported workflow workflow.mainBuild.progress := by
    apply (Build.visits_main workflow _).reported
    exact (Reported.start.record rfl).record rfl
  exact (Build.reported_components main).record rfl

/-- Compilation processes every edge of the workflow, and each once. -/
theorem perm_processed_compile (coherent : workflow.Coherent) :
    workflow.compile.progress.processed.Perm workflow.edges.ids := by
  obtain ⟨sound, entryDone⟩ := sound_mainBuild coherent
  have accounts := sound.accounts
  have distinct := nodup_edge_ids coherent
  have components := Build.perm_processed_components coherent entryDone sound.allPlaced
  refine components.trans ((List.perm_ext_iff_of_nodup ?_ distinct).mpr ?_)
  · refine List.nodup_append.mpr ⟨Build.nodup_leftover coherent _, ?_, ?_⟩
    · exact (List.nodup_append.mp (accounts.nodup_iff.mpr distinct)).1
    · intro left isLeft processed isProcessed same
      exact ((Build.mem_leftover coherent).mp isLeft).2 (same ▸ isProcessed)
  · intro edge
    rw [List.mem_append, Build.mem_leftover coherent]
    constructor
    · intro present
      rcases present with ⟨inIds, _⟩ | isProcessed
      · exact inIds
      · exact accounts.subset (List.mem_append_left _ isProcessed)
    · intro inIds
      by_cases isProcessed : edge ∈ workflow.mainBuild.progress.processed
      · exact Or.inr isProcessed
      · exact Or.inl ⟨inIds, isProcessed⟩

/-- Every edge is reported once: as taken or as set aside. -/
theorem count_taken_add_count_skipped (coherent : workflow.Coherent) (edge : EdgeId) :
    workflow.compile.progress.events.toList.count (.taken edge) +
        workflow.compile.progress.events.toList.count (.skipped edge) =
      workflow.edges.ids.count edge := by
  rw [← count_filterMap_processed, ← (perm_processed_compile coherent).count_eq,
    (reported_compile workflow).processed, List.count_reverse]

end Workflow

/-! ### Main result -/

/-- The main build processes exactly the edges that can be reached from the entry edges. The
loop over what is left of a component ends after at most as many rounds as it has edges,
and in the end every edge is processed. No edge is taken from a queue twice, every edge that
resolves is taken once, and an edge that is set aside dangles and is never taken. -/
theorem compile_processes_every_edge_once {document : Document} {workflow : Workflow}
    (loaded : Workflow.load document = .ok workflow) :
    (∀ edge, edge ∈ workflow.mainBuild.progress.processed ↔ workflow.Reached edge) ∧
      (∀ component progress, ∃ rounds ≤ component.length,
        (Build.round workflow)^[rounds]
            ((Build.ofRoots workflow component progress).drain workflow) =
          Build.component workflow component progress ∧
        (Build.component workflow component progress).queue = ⟨[], []⟩) ∧
      (∀ edge ∈ workflow.edges.ids, edge ∈ workflow.compile.progress.processed) ∧
      (∀ edge, workflow.compile.progress.events.toList.count (.taken edge) ≤ 1) ∧
      (∀ edge resolved, workflow.resolveEdge edge = .ok resolved →
        workflow.compile.progress.events.toList.count (.taken edge) = 1) ∧
      ∀ edge, .skipped edge ∈ workflow.compile.progress.events.toList →
        (∃ cause, workflow.resolveEdge edge = .error cause) ∧
          .taken edge ∉ workflow.compile.progress.events.toList := by
  have coherent := Workflow.coherent_of_load loaded
  have distinct := Workflow.nodup_edge_ids coherent
  have setAside := (Workflow.reported_compile workflow).setAside
  refine ⟨fun edge => Build.mem_processed_mainBuild coherent, ?_, ?_, ?_, ?_, ?_⟩
  · intro component progress
    obtain ⟨rounds, bound, ended⟩ :=
      Build.exists_rounds_exhaust workflow (Build.pending_drain workflow _)
    refine ⟨rounds, ?_, ended⟩
    exact Nat.le_trans bound (Nat.le_trans (Build.fresh_drain_length_le workflow _)
      (Build.fresh_ofRoots_length_le workflow component progress))
  · intro edge inIds
    exact (Workflow.perm_processed_compile coherent).mem_iff.mpr inIds
  · intro edge
    have counts := Workflow.count_taken_add_count_skipped coherent edge
    have atMostOnce := List.nodup_iff_count_le_one.mp distinct edge
    omega
  · intro edge resolved resolves
    have counts := Workflow.count_taken_add_count_skipped coherent edge
    rw [List.count_eq_one_of_mem distinct
      (Workflow.mem_edge_ids_of_resolveEdge coherent resolves)] at counts
    have notSkipped : Event.skipped edge ∉ workflow.compile.progress.events.toList := by
      intro skipped
      obtain ⟨cause, dangles⟩ := setAside edge skipped
      rw [resolves] at dangles
      cases dangles
    rw [List.count_eq_zero_of_not_mem notSkipped, Nat.add_zero] at counts
    exact counts
  · intro edge skipped
    refine ⟨setAside edge skipped, ?_⟩
    intro taken
    have counts := Workflow.count_taken_add_count_skipped coherent edge
    have atMostOnce := List.nodup_iff_count_le_one.mp distinct edge
    have takenOnce := List.count_pos_iff.mpr taken
    have skippedOnce := List.count_pos_iff.mpr skipped
    omega

def brokenCircle : Document :=
  ((((Document.ofEntrypoint "entry").addNodes ["a", "x", "y"]).addEdge "entry" "a").addEdge "x"
    "y").addEdge "y" "ghost" |>.addEdge "ghost" "x"

/-- The circle is entered at `x`. Its second edge is taken and dropped, and its last one,
which nothing leads to, is set aside. -/
theorem compile_processes_every_edge_once_brokenCircle :
    ∃ workflow, Workflow.load brokenCircle = .ok workflow ∧
      (⟨0⟩ ∈ workflow.mainBuild.progress.processed ↔ workflow.Reached ⟨0⟩) ∧
      workflow.edges.ids = [⟨0⟩, ⟨1⟩, ⟨2⟩, ⟨3⟩] ∧
      ⟨2⟩ ∈ workflow.compile.progress.processed ∧
      workflow.resolveEdge ⟨1⟩ = .ok ⟨some (.node ⟨1⟩), ⟨2⟩⟩ ∧
      workflow.compile.progress.events.toList.count (.taken ⟨1⟩) = 1 ∧
      .skipped ⟨3⟩ ∈ workflow.compile.progress.events.toList ∧
      (∃ cause, workflow.resolveEdge ⟨3⟩ = .error cause) ∧
      .taken ⟨3⟩ ∉ workflow.compile.progress.events.toList := by
  have evaluated : ((Workflow.load brokenCircle).toOption.map fun workflow =>
      (workflow.edges.ids, (workflow.resolveEdge ⟨1⟩).toOption,
        workflow.compile.progress.events.toList.contains (.skipped ⟨3⟩))) =
      some ([⟨0⟩, ⟨1⟩, ⟨2⟩, ⟨3⟩], some ⟨some (.node ⟨1⟩), ⟨2⟩⟩, true) := by
    decide +kernel
  obtain ⟨workflow, loaded, views⟩ := Workflow.exists_load_of_map_toOption evaluated
  simp only [Prod.mk.injEq] at views
  obtain ⟨ids, circle, isSkipped⟩ := views
  have joins := eq_ok_of_toOption_eq_some circle
  have skipped : Event.skipped ⟨3⟩ ∈ workflow.compile.progress.events.toList :=
    List.contains_iff_mem.mp isSkipped
  obtain ⟨reached, _, all, _, once, setAside⟩ := compile_processes_every_edge_once loaded
  have inIds : (⟨2⟩ : EdgeId) ∈ workflow.edges.ids := by
    rw [ids]
    decide
  exact ⟨workflow, loaded, reached ⟨0⟩, ids, all ⟨2⟩ inIds, joins, once ⟨1⟩ _ joins, skipped,
    setAside ⟨3⟩ skipped⟩

end FlowGraph
