import FlowGraph.Build
import FlowGraph.Proofs.EdgeEnds
import FlowGraph.Proofs.Folding

/-!
What holds while an expression is built. Its graph is that of the edges done so far,
and every edge that waits in the queue leaves something in the expression, so that it
has a place when its turn comes.
-/

namespace FlowGraph

/-! ### The queue -/

namespace EdgeQueue

private theorem perm_enqueue (queue : EdgeQueue) (edge : EdgeId) :
    ((queue.enqueue edge).pending ++ (queue.enqueue edge).fresh).Perm
      (queue.pending ++ queue.fresh) := by
  unfold enqueue
  by_cases isFresh : edge ∈ queue.fresh
  · rw [if_pos isFresh, List.append_assoc]
    exact (List.perm_cons_erase isFresh).symm.append_left queue.pending
  · rw [if_neg isFresh]

theorem perm_enqueueAll (queue : EdgeQueue) (edges : List EdgeId) :
    ((queue.enqueueAll edges).pending ++ (queue.enqueueAll edges).fresh).Perm
      (queue.pending ++ queue.fresh) := by
  unfold enqueueAll
  induction edges generalizing queue with
  | nil => exact List.Perm.refl _
  | cons edge edges ih => exact (ih (queue.enqueue edge)).trans (perm_enqueue queue edge)

theorem perm_enqueueWhere (queue : EdgeQueue) (test : EdgeId → Bool) :
    ((queue.enqueueWhere test).pending ++ (queue.enqueueWhere test).fresh).Perm
      (queue.pending ++ queue.fresh) := by
  rw [enqueueWhere, List.append_assoc]
  exact (List.filter_append_perm test queue.fresh).append_left queue.pending

theorem mem_pending_enqueueAll {queue : EdgeQueue} {edges : List EdgeId} {edge : EdgeId}
    (waits : edge ∈ (queue.enqueueAll edges).pending) :
    edge ∈ queue.pending ∨ edge ∈ edges ∧ edge ∈ queue.fresh := by
  unfold enqueueAll at waits
  induction edges generalizing queue with
  | nil => exact Or.inl waits
  | cons first edges ih =>
      have later := ih waits
      unfold enqueue at later
      by_cases isFresh : first ∈ queue.fresh
      · rw [if_pos isFresh] at later
        rcases later with waits | ⟨inside, fresh⟩
        · rcases List.mem_append.mp waits with old | new
          · exact Or.inl old
          · rw [List.mem_singleton.mp new]
            exact Or.inr ⟨List.mem_cons_self, isFresh⟩
        · exact Or.inr ⟨List.mem_cons_of_mem _ inside, List.mem_of_mem_erase fresh⟩
      · rw [if_neg isFresh] at later
        rcases later with waits | ⟨inside, fresh⟩
        · exact Or.inl waits
        · exact Or.inr ⟨List.mem_cons_of_mem _ inside, fresh⟩

theorem fresh_enqueueAll_sublist (queue : EdgeQueue) (edges : List EdgeId) :
    (queue.enqueueAll edges).fresh.Sublist queue.fresh := by
  unfold enqueueAll
  induction edges generalizing queue with
  | nil => exact List.Sublist.refl _
  | cons edge edges ih =>
      refine (ih (queue.enqueue edge)).trans ?_
      unfold enqueue
      split
      · exact List.erase_sublist
      · exact List.Sublist.refl _

theorem not_mem_fresh_enqueueAll {queue : EdgeQueue} {edges : List EdgeId} {edge : EdgeId}
    (distinct : queue.fresh.Nodup) (inside : edge ∈ edges) :
    edge ∉ (queue.enqueueAll edges).fresh := by
  unfold enqueueAll
  induction edges generalizing queue with
  | nil => cases inside
  | cons first edges ih =>
      have sublist : (queue.enqueue first).fresh.Sublist queue.fresh :=
        fresh_enqueueAll_sublist queue [first]
      rcases List.mem_cons.mp inside with rfl | later
      · intro stillFresh
        have fresh := (fresh_enqueueAll_sublist (queue.enqueue edge) edges).subset stillFresh
        unfold enqueue at fresh
        split at fresh
        · exact absurd fresh distinct.not_mem_erase
        · rename_i notFresh
          exact notFresh fresh
      · exact ih (distinct.sublist sublist) later

end EdgeQueue

/-! ### The events -/

structure AllPlaced (workflow : Workflow) (events : List Event) : Prop where
  placed : ∀ before after edge resolved, events = before ++ .taken edge :: after →
    workflow.resolveEdge edge = .ok resolved → ∃ expr rest, after = .placed edge expr :: rest
  noneUnplaced : ∀ edge, Event.unplaced edge ∉ events

namespace AllPlaced

variable {workflow : Workflow}

theorem append {first second : List Event} (ofFirst : AllPlaced workflow first)
    (ofSecond : AllPlaced workflow second) : AllPlaced workflow (first ++ second) where
  placed := by
    intro before after edge resolved isTaken resolves
    rcases List.append_eq_append_iff.mp isTaken with ⟨front, _, inSecond⟩ | ⟨back, inFirst, tail⟩
    · exact ofSecond.placed front after edge resolved inSecond resolves
    · cases back with
      | nil => exact ofSecond.placed [] after edge resolved tail.symm resolves
      | cons event back =>
          cases tail
          obtain ⟨expr, rest, rfl⟩ := ofFirst.placed before back edge resolved inFirst resolves
          exact ⟨expr, rest ++ second, rfl⟩
  noneUnplaced := by
    intro edge unplaced
    rcases List.mem_append.mp unplaced with inFirst | inSecond
    · exact ofFirst.noneUnplaced edge inFirst
    · exact ofSecond.noneUnplaced edge inSecond

theorem nil : AllPlaced workflow [] where
  placed := by
    intro before after edge resolved isTaken
    cases before <;> cases isTaken
  noneUnplaced := fun _ => List.not_mem_nil

private theorem singleton {event : Event} (notTaken : ∀ edge, event ≠ .taken edge)
    (notUnplaced : ∀ edge, event ≠ .unplaced edge) : AllPlaced workflow [event] where
  placed := by
    intro before after edge resolved isTaken
    have inside : Event.taken edge ∈ [event] := isTaken ▸ List.mem_append_right _ List.mem_cons_self
    exact absurd (List.mem_singleton.mp inside).symm (notTaken edge)
  noneUnplaced := by
    intro edge unplaced
    exact notUnplaced edge (List.mem_singleton.mp unplaced).symm

theorem taken {edge : EdgeId} {event : Event}
    (follows : ∀ resolved, workflow.resolveEdge edge = .ok resolved →
      ∃ expr, event = .placed edge expr)
    (notTaken : ∀ other, event ≠ .taken other) (notUnplaced : ∀ other, event ≠ .unplaced other) :
    AllPlaced workflow [.taken edge, event] where
  placed := by
    intro before after other resolved isTaken resolves
    cases before with
    | nil =>
        cases isTaken
        obtain ⟨expr, rfl⟩ := follows resolved resolves
        exact ⟨expr, [], rfl⟩
    | cons first before =>
        rw [List.cons_append, List.cons.injEq] at isTaken
        exact (singleton notTaken notUnplaced).placed before after other resolved isTaken.2 resolves
  noneUnplaced := by
    intro other unplaced
    rcases List.mem_cons.mp unplaced with isTaken | last
    · cases isTaken
    · exact notUnplaced other (List.mem_singleton.mp last).symm

end AllPlaced

theorem AllPlaced.record {workflow : Workflow} {progress : Progress} {event : Event}
    (allPlaced : AllPlaced workflow progress.events.toList)
    (notTaken : ∀ edge, event ≠ .taken edge) (notUnplaced : ∀ edge, event ≠ .unplaced edge) :
    AllPlaced workflow (progress.record event).events.toList := by
  rw [Progress.record, Array.toList_push]
  exact allPlaced.append (.singleton notTaken notUnplaced)

theorem AllPlaced.take {workflow : Workflow} {progress : Progress} {edge : EdgeId} {event : Event}
    (allPlaced : AllPlaced workflow progress.events.toList)
    (follows : ∀ resolved, workflow.resolveEdge edge = .ok resolved →
      ∃ expr, event = .placed edge expr)
    (notTaken : ∀ other, event ≠ .taken other) (notUnplaced : ∀ other, event ≠ .unplaced other) :
    AllPlaced workflow
      (((progress.process edge).record (.taken edge)).record event).events.toList := by
  have events : (((progress.process edge).record (.taken edge)).record event).events.toList =
      progress.events.toList ++ [.taken edge, event] := by
    simp only [Progress.record, Progress.process, Array.toList_push, List.append_assoc,
      List.cons_append, List.nil_append]
  rw [events]
  exact allPlaced.append (.taken follows notTaken notUnplaced)

/-! ### The expression -/

namespace Expr

def EmptyOrSolid (expr : Expr) : Prop := expr = .empty ∨ expr.Solid

theorem EmptyOrSolid.contains_iff {expr : Expr} (formed : expr.EmptyOrSolid)
    (reference : Reference) :
    expr.contains reference = true ↔
      reference.owner ∈ expr.heads ∨ ∃ leaving, (leaving, reference.owner) ∈ expr.links := by
  rcases formed with rfl | solid
  · constructor
    · intro impossible
      cases impossible
    · intro impossible
      rcases impossible with inHeads | ⟨_, inLinks⟩
      · cases inHeads
      · cases inLinks
  · exact solid.contains_iff reference

theorem Adds.contains_target {source : Option Reference} {target : NodeId} {old new : Expr}
    (adds : Adds source target old new) : new.contains (.node target) = true := by
  rw [adds.solid.contains_iff]
  cases source with
  | none => exact Or.inl ((adds.heads _).mpr (Or.inr ⟨rfl, rfl⟩))
  | some leaving => exact Or.inr ⟨leaving, (adds.links _).mpr (Or.inr ⟨rfl, rfl⟩)⟩

private theorem Adds.contains_of_contains {source : Option Reference} {target : NodeId}
    {old new : Expr}
    {reference : Reference} (adds : Adds source target old new) (formed : old.EmptyOrSolid)
    (inside : old.contains reference = true) : new.contains reference = true := by
  rw [adds.solid.contains_iff]
  rcases (formed.contains_iff reference).mp inside with inHeads | ⟨leaving, inLinks⟩
  · exact Or.inl ((adds.heads _).mpr (Or.inl inHeads))
  · exact Or.inr ⟨leaving, (adds.links _).mpr (Or.inl inLinks)⟩

end Expr

open FlowGraph.Expr

/-- An edge has a place in an expression that holds its source. -/
theorem Workflow.exists_foldAtTop {workflow : Workflow} {source : Option Reference}
    (target : NodeId) {expr : Expr} (formed : expr.EmptyOrSolid)
    (held : ∀ leaving, source = some leaving → expr.contains leaving = true) :
    ∃ folded, workflow.surroundings.foldAtTop source target expr = some folded ∧
      Adds source target expr folded := by
  rcases formed with rfl | solid
  · cases source with
    | some leaving => cases held leaving rfl
    | none =>
        refine ⟨.node target, rfl, .node target, ?_, ?_⟩
        · intro head
          simp [heads]
        · intro link
          simp [links]
  · have accepted := (workflow.surroundings.isSome_fold source target .entry solid).mpr (by
      cases source with
      | none => exact Or.inl rfl
      | some leaving => exact Or.inr ⟨leaving, rfl, held leaving rfl⟩)
    obtain ⟨folded, found⟩ := Option.isSome_iff_exists.mp accepted
    exact ⟨folded, found, Surroundings.adds_fold solid (Anchor.admits_entry source) found⟩

/-- An expression denotes the graph of some edges: their links, and the targets of those
that leave the structural entry as heads beside the ones it started from. -/
structure Covers (workflow : Workflow) (starts : List Reference) (done : List EdgeId)
    (expr : Expr) : Prop where
  formed : expr.EmptyOrSolid
  heads : ∀ head, head ∈ expr.heads ↔ head ∈ starts ∨ ∃ edge ∈ done, workflow.Enters edge head
  links : ∀ link, link ∈ expr.links ↔ ∃ edge ∈ done, workflow.Joins edge link

namespace Covers

variable {workflow : Workflow} {starts : List Reference} {done : List EdgeId} {expr : Expr}
  {edge : EdgeId}

private theorem of_adds (covers : Covers workflow starts done expr) {folded : Expr}
    {source : Option Reference} {target : NodeId}
    (resolves : workflow.resolveEdge edge = .ok ⟨source, target⟩)
    (adds : Adds source target expr folded) : Covers workflow starts (edge :: done) folded where
  formed := Or.inr adds.solid
  heads := by
    intro head
    have enters : workflow.Enters edge head ↔ source = none ∧ head = .node target := by
      simp [Workflow.Enters, resolves, and_assoc]
    rw [adds.heads, covers.heads, List.exists_mem_cons_iff, enters, or_assoc]
    exact or_congr_right or_comm
  links := by
    intro link
    have joins : workflow.Joins edge link ↔ source = some link.1 ∧ link.2 = .node target := by
      simp [Workflow.Joins, resolves, and_assoc]
    rw [adds.links, covers.links, List.exists_mem_cons_iff, joins, or_comm]

theorem of_dangling (covers : Covers workflow starts done expr) {cause : DanglingCause}
    (dangles : workflow.resolveEdge edge = .error cause) :
    Covers workflow starts (edge :: done) expr where
  formed := covers.formed
  heads := by
    intro head
    have notEnters : ¬ workflow.Enters edge head := by
      simp [Workflow.Enters, dangles]
    rw [covers.heads, List.exists_mem_cons_iff, or_iff_right notEnters]
  links := by
    intro link
    have notJoins : ¬ workflow.Joins edge link := by
      simp [Workflow.Joins, dangles]
    rw [covers.links, List.exists_mem_cons_iff, or_iff_right notJoins]

theorem contains_of_start (covers : Covers workflow starts done expr) {reference : Reference}
    (isStart : reference.owner ∈ starts) : expr.contains reference = true :=
  (covers.formed.contains_iff reference).mpr (Or.inl ((covers.heads _).mpr (Or.inl isStart)))

theorem congr {others : List EdgeId} (covers : Covers workflow starts done expr)
    (same : ∀ edge, edge ∈ done ↔ edge ∈ others) : Covers workflow starts others expr where
  formed := covers.formed
  heads := by
    intro head
    simp only [covers.heads, same]
  links := by
    intro link
    simp only [covers.links, same]

end Covers

/-! ### One step -/

def Attached (workflow : Workflow) (expr : Expr) (edge : EdgeId) : Prop :=
  ∀ leaving target, workflow.resolveEdge edge = .ok ⟨some leaving, target⟩ →
    expr.contains leaving = true

/-- What holds of a build at every time. It started from some references, works on the
edges in its scope, of which some are done, and found others processed before. -/
structure Sound (workflow : Workflow) (starts : List Reference) (scope before done : List EdgeId)
    (build : Build) : Prop where
  processed : build.progress.processed = done ++ before
  accounts : (done ++ (build.queue.pending ++ build.queue.fresh)).Perm scope
  covers : Covers workflow starts done build.expr
  attached : ∀ edge ∈ build.queue.pending, Attached workflow build.expr edge
  noEntry : ∀ edge ∈ build.queue.fresh, edge ∉ workflow.entryEdges
  allPlaced : AllPlaced workflow build.progress.events.toList

private theorem attached_enqueueAll {workflow : Workflow} (coherent : workflow.Coherent)
    {source : Option Reference} {target : NodeId} {old new : Expr} (formed : old.EmptyOrSolid)
    (adds : Adds source target old new) {queue : EdgeQueue}
    (attached : ∀ edge ∈ queue.pending, Attached workflow old edge)
    (noEntry : ∀ edge ∈ queue.fresh, edge ∉ workflow.entryEdges) :
    ∀ edge ∈ (queue.enqueueAll (workflow.outgoing target)).pending,
      Attached workflow new edge := by
  intro edge waits leaving place resolves
  rcases EdgeQueue.mem_pending_enqueueAll waits with waited | ⟨isOutgoing, isFresh⟩
  · exact adds.contains_of_contains formed (attached edge waited leaving place resolves)
  · rcases Workflow.owner_of_mem_outgoing coherent isOutgoing resolves with owner | isEntry
    · rw [← contains_owner, owner]
      exact adds.contains_target
    · exact absurd isEntry (noEntry edge isFresh)

namespace Build

variable {workflow : Workflow} {starts : List Reference} {scope before done : List EdgeId}
  {build : Build}

theorem step_of_dangling (build : Build) {edge : EdgeId} {cause : DanglingCause}
    (dangles : workflow.resolveEdge edge = .error cause) :
    build.step workflow edge =
      { build with
        progress := ((build.progress.process edge).record (.taken edge)).record
          (.dropped edge cause) } := by
  unfold step
  rw [dangles]
  rfl

theorem step_of_placed (build : Build) {edge : EdgeId} {resolved : ResolvedEdge} {folded : Expr}
    (resolves : workflow.resolveEdge edge = .ok resolved)
    (found : workflow.surroundings.foldAtTop resolved.source resolved.target build.expr =
      some folded) :
    build.step workflow edge =
      { expr := folded
        queue := build.queue.enqueueAll (workflow.outgoing resolved.target)
        progress := ((build.progress.process edge).record (.taken edge)).record
          (.placed edge folded) } := by
  unfold step
  rw [resolves]
  dsimp only
  rw [place, found]
  rfl

theorem step_of_unplaced (build : Build) {edge : EdgeId} {resolved : ResolvedEdge}
    (resolves : workflow.resolveEdge edge = .ok resolved)
    (refused : workflow.surroundings.foldAtTop resolved.source resolved.target build.expr = none) :
    build.step workflow edge =
      { expr := build.expr
        queue := build.queue.enqueueAll (workflow.outgoing resolved.target)
        progress := ((build.progress.process edge).record (.taken edge)).record
          (.unplaced edge) } := by
  unfold step
  rw [resolves]
  dsimp only
  rw [place, refused]
  rfl

theorem processed_step (workflow : Workflow) (edge : EdgeId) (build : Build) :
    (build.step workflow edge).progress.processed = edge :: build.progress.processed := by
  cases resolves : workflow.resolveEdge edge with
  | error cause =>
      rw [step_of_dangling build resolves]
      rfl
  | ok resolved =>
      cases found : workflow.surroundings.foldAtTop resolved.source resolved.target build.expr with
      | some folded =>
          rw [step_of_placed build resolves found]
          rfl
      | none =>
          rw [step_of_unplaced build resolves found]
          rfl

private theorem queue_step (build : Build) {edge : EdgeId} {resolved : ResolvedEdge}
    (resolves : workflow.resolveEdge edge = .ok resolved) :
    (build.step workflow edge).queue =
      build.queue.enqueueAll (workflow.outgoing resolved.target) := by
  cases found : workflow.surroundings.foldAtTop resolved.source resolved.target build.expr with
  | some folded => rw [step_of_placed build resolves found]
  | none => rw [step_of_unplaced build resolves found]

def behind (workflow : Workflow) (edge : EdgeId) : List EdgeId :=
  match workflow.resolveEdge edge with
  | .error _ => []
  | .ok resolved => workflow.outgoing resolved.target

theorem mem_behind {edge next : EdgeId} :
    next ∈ behind workflow edge ↔
      ∃ resolved, workflow.resolveEdge edge = .ok resolved ∧
        next ∈ workflow.outgoing resolved.target := by
  rw [behind]
  cases workflow.resolveEdge edge <;> simp

theorem queue_step_behind (workflow : Workflow) (build : Build) (edge : EdgeId) :
    (build.step workflow edge).queue = build.queue.enqueueAll (behind workflow edge) := by
  rw [behind]
  cases resolves : workflow.resolveEdge edge with
  | error cause =>
      rw [step_of_dangling build resolves]
      rfl
  | ok resolved => exact queue_step build resolves

theorem drain_of_pending_eq_nil (workflow : Workflow) {build : Build}
    (noneWaits : build.queue.pending = []) : build.drain workflow = build := by
  rw [drain]
  split
  · rfl
  · rename_i queueIs
    rw [queueIs] at noneWaits
    cases noneWaits

theorem drain_of_pending_eq_cons (workflow : Workflow) {build : Build} {edge : EdgeId}
    {pending : List EdgeId} (waits : build.queue.pending = edge :: pending) :
    build.drain workflow =
      ({ build with queue := ⟨pending, build.queue.fresh⟩ }.step workflow edge).drain workflow := by
  rw [drain]
  split
  · rename_i queueIs
    rw [queueIs] at waits
    cases waits
  · rename_i queueIs
    rw [queueIs] at waits
    cases waits
    rw [queueIs]

theorem sound_step (coherent : workflow.Coherent) {edge : EdgeId} {pending fresh : List EdgeId}
    (sound : Sound workflow starts scope before done build)
    (queueIs : build.queue = ⟨edge :: pending, fresh⟩) :
    Sound workflow starts scope before (edge :: done)
      ({ build with queue := ⟨pending, fresh⟩ }.step workflow edge) := by
  have accounts : (edge :: done ++ (pending ++ fresh)).Perm scope := by
    have whole := sound.accounts
    rw [queueIs] at whole
    exact List.perm_middle.symm.trans whole
  have attached : ∀ other ∈ edge :: pending, Attached workflow build.expr other := by
    have all := sound.attached
    rw [queueIs] at all
    exact all
  have noEntry : ∀ other ∈ fresh, other ∉ workflow.entryEdges := by
    have all := sound.noEntry
    rw [queueIs] at all
    exact all
  have isProcessed : edge :: build.progress.processed = edge :: done ++ before := by
    rw [sound.processed, List.cons_append]
  cases resolves : workflow.resolveEdge edge with
  | error cause =>
      rw [step_of_dangling _ resolves]
      refine ⟨isProcessed, accounts, sound.covers.of_dangling resolves, ?_, noEntry, ?_⟩
      · intro other waits
        exact attached other (List.mem_cons_of_mem _ waits)
      · refine sound.allPlaced.take ?_ nofun nofun
        intro resolved impossible
        rw [resolves] at impossible
        cases impossible
  | ok resolved =>
      obtain ⟨source, target⟩ := resolved
      have held : ∀ leaving, source = some leaving → build.expr.contains leaving = true := by
        intro leaving isSource
        cases isSource
        exact attached edge List.mem_cons_self leaving target resolves
      obtain ⟨folded, found, adds⟩ :=
        Workflow.exists_foldAtTop target sound.covers.formed held
      rw [step_of_placed { build with queue := ⟨pending, fresh⟩ } resolves found]
      refine ⟨isProcessed, ?_, sound.covers.of_adds resolves adds, ?_, ?_, ?_⟩
      · exact ((EdgeQueue.perm_enqueueAll _ _).append_left _).trans accounts
      · apply attached_enqueueAll coherent sound.covers.formed adds _ noEntry
        intro other waits
        exact attached other (List.mem_cons_of_mem _ waits)
      · intro other isFresh
        exact noEntry other ((EdgeQueue.fresh_enqueueAll_sublist _ _).subset isFresh)
      · exact sound.allPlaced.take (fun _ _ => ⟨folded, rfl⟩) nofun nofun

theorem sound_drain (coherent : workflow.Coherent)
    (sound : Sound workflow starts scope before done build) :
    ∃ allDone, Sound workflow starts scope before allDone (build.drain workflow) ∧
      (build.drain workflow).queue.pending = [] := by
  fun_induction drain workflow build generalizing done with
  | case1 build fresh queueIs => exact ⟨done, sound, by rw [queueIs]⟩
  | case2 build edge pending fresh queueIs ih => exact ih (sound_step coherent sound queueIs)

/-! ### The main expression -/

def entryTriggers (workflow : Workflow) : List Reference :=
  workflow.entryEdges.filterMap fun edge =>
    ((workflow.edge? edge).bind fun entry => workflow.lookupTrigger? entry.sourceNode).map
      Reference.trigger

theorem mem_entryTriggers {head : Reference} :
    head ∈ entryTriggers workflow ↔
      ∃ edge ∈ workflow.entryEdges, ∃ entry trigger, workflow.edge? edge = some entry ∧
        workflow.lookupTrigger? entry.sourceNode = some trigger ∧ head = .trigger trigger := by
  rw [entryTriggers, List.mem_filterMap]
  constructor
  · intro present
    obtain ⟨edge, isEntry, isSource⟩ := present
    obtain ⟨trigger, isTrigger, rfl⟩ := Option.map_eq_some_iff.mp isSource
    obtain ⟨entry, found, declared⟩ := Option.bind_eq_some_iff.mp isTrigger
    exact ⟨edge, isEntry, entry, trigger, found, declared, rfl⟩
  · intro present
    obtain ⟨edge, isEntry, entry, trigger, found, declared, rfl⟩ := present
    refine ⟨edge, isEntry, ?_⟩
    rw [found, Option.bind_some, declared, Option.map_some]

def mainStart (workflow : Workflow) (progress : Progress) : Build :=
  { expr := Expr.flatten workflow.hasDefaultExit ((entryTriggers workflow).map ofReference)
    queue :=
      ⟨workflow.entryEdges, workflow.edges.ids.filter fun edge =>
        !progress.isProcessed edge && !workflow.entryEdges.contains edge⟩
    progress := progress.record (.mainStarted workflow.entryEdges.length) }

theorem main_eq (workflow : Workflow) (progress : Progress) :
    main workflow progress = (mainStart workflow progress).drain workflow := by
  have seeds : (workflow.entryEdges.filterMap fun edge =>
      ((workflow.edge? edge).bind fun entry => workflow.lookupTrigger? entry.sourceNode).map
        Expr.trigger) = (entryTriggers workflow).map ofReference := by
    rw [entryTriggers, List.map_filterMap]
    congr 1
    funext edge
    rw [Option.map_map]
    rfl
  rw [main, seeds, mainStart]

theorem perm_append_filter_of_sublist {some all : List EdgeId} (inside : some.Sublist all)
    (distinct : all.Nodup) : (some ++ all.filter fun edge => !some.contains edge).Perm all := by
  refine (List.perm_ext_iff_of_nodup ?_ distinct).mpr ?_
  · refine List.nodup_append.mpr ⟨distinct.sublist inside, distinct.filter _, ?_⟩
    intro first inSome second outside same
    simp [← same, inSome] at outside
  · intro edge
    simp only [List.mem_append, List.mem_filter, Bool.not_eq_true', List.contains_eq_mem,
      decide_eq_false_iff_not]
    constructor
    · intro present
      rcases present with inSome | ⟨inAll, _⟩
      · exact inside.subset inSome
      · exact inAll
    · intro inAll
      by_cases inSome : edge ∈ some
      · exact Or.inl inSome
      · exact Or.inr ⟨inAll, inSome⟩

theorem emptyOrSolid_flatten {hasDefaultExit : NodeId → Bool} {members : List Expr}
    (formed : ∀ member ∈ members, member.EmptyOrSolid) :
    (flatten hasDefaultExit members).EmptyOrSolid := by
  by_cases isEmpty : flatten hasDefaultExit members = .empty
  · exact Or.inl isEmpty
  · refine Or.inr (solid_flatten_of_ne_empty ?_ isEmpty)
    intro member present occupied
    exact (formed member present).resolve_left occupied

theorem covers_flatten_ofReference (hasDefaultExit : NodeId → Bool) {starts : List Reference}
    (owners : ∀ start ∈ starts, start.owner = start) :
    Covers workflow starts [] (flatten hasDefaultExit (starts.map ofReference)) where
  formed := by
    apply emptyOrSolid_flatten
    intro member present
    obtain ⟨start, _, rfl⟩ := List.mem_map.mp present
    exact Or.inr (solid_ofReference start)
  heads := by
    intro head
    rw [(sameOutline_flatten hasDefaultExit _).heads, mem_heads_set_map]
    constructor
    · intro present
      obtain ⟨start, isStart, isHead⟩ := present
      rw [heads_ofReference, owners start isStart, List.mem_singleton] at isHead
      exact Or.inl (isHead ▸ isStart)
    · intro present
      rcases present with isStart | ⟨edge, impossible, _⟩
      · refine ⟨head, isStart, ?_⟩
        rw [heads_ofReference, owners head isStart]
        exact List.mem_singleton_self head
      · cases impossible
  links := by
    intro link
    rw [(sameOutline_flatten hasDefaultExit _).links, mem_links_set_map]
    simp [links_ofReference]

theorem sound_mainStart (coherent : workflow.Coherent) {progress : Progress}
    (unused : progress.processed = [])
    (allPlaced : AllPlaced workflow progress.events.toList) :
    Sound workflow (entryTriggers workflow) workflow.edges.ids [] []
      (mainStart workflow progress) := by
  have owners : ∀ start ∈ entryTriggers workflow, start.owner = start := by
    intro start isStart
    obtain ⟨_, _, _, trigger, _, _, rfl⟩ := mem_entryTriggers.mp isStart
    rfl
  have covers : Covers workflow (entryTriggers workflow) [] (mainStart workflow progress).expr :=
    covers_flatten_ofReference workflow.hasDefaultExit owners
  refine ⟨unused, ?_, covers, ?_, ?_, allPlaced.record nofun nofun⟩
  · simp only [mainStart, Progress.isProcessed, unused, List.contains_nil, Bool.not_false,
      Bool.true_and]
    exact perm_append_filter_of_sublist (Workflow.edgesWhere_sublist workflow _)
      (Workflow.nodup_edge_ids coherent)
  · intro edge isEntry leaving target resolves
    obtain ⟨entry, trigger, found, declared, rfl⟩ :=
      Workflow.lookupTrigger?_of_mem_entryEdges coherent isEntry resolves
    have isStart : Reference.trigger trigger ∈ entryTriggers workflow :=
      mem_entryTriggers.mpr ⟨edge, isEntry, entry, trigger, found, declared, rfl⟩
    exact covers.contains_of_start isStart
  · intro edge isFresh isEntry
    simp [mainStart, isEntry] at isFresh

/-- The main expression covers the edges that are processed with it, starting from the
triggers that entry edges leave. -/
theorem sound_main (coherent : workflow.Coherent) {progress : Progress}
    (unused : progress.processed = [])
    (allPlaced : AllPlaced workflow progress.events.toList) :
    ∃ done, Sound workflow (entryTriggers workflow) workflow.edges.ids [] done
        (main workflow progress) ∧
      (main workflow progress).queue.pending = [] := by
  rw [main_eq]
  exact sound_drain coherent (sound_mainStart coherent unused allPlaced)

end Build

end FlowGraph
