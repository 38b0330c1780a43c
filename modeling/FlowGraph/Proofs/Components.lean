import FlowGraph.Proofs.Building
import FlowGraph.Proofs.Grouping

/-!
What the expressions of the leftover edges cover. The edges of a component are all
done when no edge of it is fresh, and the components share the leftover edges out
between them.
-/

namespace FlowGraph

open FlowGraph.Expr

theorem Component.subset_of_mem_partition {edges : List (EdgeId × Edge)} {group : Component}
    (present : group ∈ partition edges) : group.map Prod.fst ⊆ edges.map Prod.fst :=
  List.map_subset Prod.fst
    (List.Subset.trans (List.sublist_flatten_of_mem present).subset (perm_partition edges).subset)

private theorem Component.nodup_of_mem_partition {edges : List (EdgeId × Edge)} {group : Component}
    (present : group ∈ partition edges) (distinct : (edges.map Prod.fst).Nodup) :
    (group.map Prod.fst).Nodup := by
  have grouped := ((perm_partition edges).map Prod.fst).nodup_iff.mpr distinct
  exact grouped.sublist ((List.sublist_flatten_of_mem present).map Prod.fst)

namespace Build

variable {workflow : Workflow} {starts : List Reference} {scope before done : List EdgeId}
  {build : Build}

/-! ### Starting from the roots -/

def sourceOwner? (workflow : Workflow) (edge : EdgeId) : Option Reference :=
  match workflow.resolveEdge edge with
  | .ok resolved => resolved.source.map Reference.owner
  | .error _ => none

theorem sourceOwner?_eq_some {edge : EdgeId} {start : Reference} :
    sourceOwner? workflow edge = some start ↔
      ∃ leaving target, workflow.resolveEdge edge = .ok ⟨some leaving, target⟩ ∧
        leaving.owner = start := by
  unfold sourceOwner?
  cases workflow.resolveEdge edge with
  | error cause => simp
  | ok resolved =>
      obtain ⟨source, target⟩ := resolved
      cases source <;> simp

theorem fst_seed (workflow : Workflow) (edge : EdgeId) (progress : Progress) :
    (seed workflow edge progress).1 = (sourceOwner? workflow edge).map ofReference := by
  unfold seed sourceOwner?
  cases workflow.resolveEdge edge with
  | error cause => rfl
  | ok resolved =>
      rw [Option.map_map]
      rfl

theorem snd_seed (workflow : Workflow) (edge : EdgeId) (progress : Progress) :
    (seed workflow edge progress).2 = progress ∨
      ∃ cause, (seed workflow edge progress).2 = progress.record (.dropped edge cause) := by
  unfold seed
  cases workflow.resolveEdge edge with
  | error cause => exact Or.inr ⟨cause, rfl⟩
  | ok resolved => exact Or.inl rfl

private theorem processed_seed (workflow : Workflow) (edge : EdgeId) (progress : Progress) :
    (seed workflow edge progress).2.processed = progress.processed := by
  rcases snd_seed workflow edge progress with same | ⟨cause, recorded⟩
  · rw [same]
  · rw [recorded]
    rfl

private theorem allPlaced_seed (workflow : Workflow) (edge : EdgeId) {progress : Progress}
    (allPlaced : AllPlaced workflow progress.events.toList) :
    AllPlaced workflow (seed workflow edge progress).2.events.toList := by
  rcases snd_seed workflow edge progress with same | ⟨cause, recorded⟩
  · rw [same]
    exact allPlaced
  · rw [recorded]
    exact allPlaced.record nofun nofun

theorem fst_seeds (workflow : Workflow) (edges : List EdgeId) (progress : Progress) :
    (seeds workflow progress edges).1 =
      (edges.filterMap (sourceOwner? workflow)).map ofReference := by
  induction edges generalizing progress with
  | nil => rfl
  | cons edge edges ih =>
      rw [seeds]
      dsimp only
      rw [fst_seed, ih]
      cases owner : sourceOwner? workflow edge with
      | none => rw [List.filterMap_cons_none owner]; rfl
      | some start => rw [List.filterMap_cons_some owner]; rfl

theorem keeps_seeds {holds : Progress → Prop}
    (each : ∀ edge progress, holds progress → holds (seed workflow edge progress).2)
    (edges : List EdgeId) {progress : Progress} (held : holds progress) :
    holds (seeds workflow progress edges).2 := by
  induction edges generalizing progress with
  | nil => exact held
  | cons edge edges ih => exact ih (each edge progress held)

private theorem processed_seeds (workflow : Workflow) (edges : List EdgeId) (progress : Progress) :
    (seeds workflow progress edges).2.processed = progress.processed :=
  keeps_seeds (fun edge later (same : later.processed = progress.processed) =>
    (processed_seed workflow edge later).trans same) edges rfl

private theorem allPlaced_seeds (workflow : Workflow) (edges : List EdgeId) {progress : Progress}
    (allPlaced : AllPlaced workflow progress.events.toList) :
    AllPlaced workflow (seeds workflow progress edges).2.events.toList :=
  keeps_seeds (fun edge later (placed : AllPlaced workflow later.events.toList) =>
    allPlaced_seed workflow edge placed) edges allPlaced

theorem rootEdges_sublist (component : Component) :
    (component.rootEdges.map Prod.fst).Sublist (component.map Prod.fst) :=
  List.filter_sublist.map Prod.fst

def rootOwners (workflow : Workflow) (component : Component) : List Reference :=
  (component.rootEdges.map Prod.fst).filterMap (sourceOwner? workflow)

def StartsWithin (workflow : Workflow) (scope : List EdgeId) (starts : List Reference) : Prop :=
  ∀ start ∈ starts, ∃ edge ∈ scope, sourceOwner? workflow edge = some start

private theorem startsWithin_rootOwners (workflow : Workflow) (component : Component) :
    StartsWithin workflow (component.map Prod.fst) (rootOwners workflow component) := by
  intro start isStart
  obtain ⟨edge, isRootEdge, isOwner⟩ := List.mem_filterMap.mp isStart
  exact ⟨edge, (rootEdges_sublist component).subset isRootEdge, isOwner⟩

private theorem sound_ofRoots {component : Component} {progress : Progress}
    (distinct : (component.map Prod.fst).Nodup)
    (noEntry : ∀ edge ∈ component.map Prod.fst, edge ∉ workflow.entryEdges)
    (allPlaced : AllPlaced workflow progress.events.toList) :
    Sound workflow (rootOwners workflow component) (component.map Prod.fst) progress.processed []
      (ofRoots workflow component progress) := by
  have placed := allPlaced_seeds workflow (component.rootEdges.map Prod.fst) allPlaced
  have owners : ∀ start ∈ rootOwners workflow component, start.owner = start := by
    intro start isStart
    obtain ⟨edge, _, isOwner⟩ := List.mem_filterMap.mp isStart
    obtain ⟨leaving, _, _, rfl⟩ := sourceOwner?_eq_some.mp isOwner
    exact leaving.owner_owner
  have covers : Covers workflow (rootOwners workflow component) []
      (ofRoots workflow component progress).expr := by
    rw [ofRoots]
    dsimp only
    rw [fst_seeds]
    exact covers_flatten_ofReference workflow.hasDefaultExit owners
  refine ⟨processed_seeds workflow _ progress, ?_, covers, ?_, ?_, placed.record nofun nofun⟩
  · exact perm_append_filter_of_sublist (rootEdges_sublist component) distinct
  · intro edge isRootEdge leaving target resolves
    have isStart : leaving.owner ∈ rootOwners workflow component :=
      List.mem_filterMap.mpr
        ⟨edge, isRootEdge, sourceOwner?_eq_some.mpr ⟨leaving, target, resolves, rfl⟩⟩
    exact covers.contains_of_start isStart
  · intro edge isFresh
    exact noEntry edge (List.mem_filter.mp isFresh).1

/-! ### Starting again -/

private theorem attached_of_canAttach {expr : Expr} {edge : EdgeId}
    (attaches : canAttach workflow expr edge = true) : Attached workflow expr edge := by
  intro leaving target resolves
  obtain ⟨entry, found, origin⟩ := Workflow.origin_of_resolveEdge resolves
  rw [canAttach, found, Option.any_some, holdsSource] at attaches
  rcases origin with ⟨_, impossible⟩ | ⟨trigger, origin, same⟩ | ⟨node, _, origin, exits, same⟩
  · cases impossible
  · cases same
    rw [origin] at attaches
    exact attaches
  · cases same
    rw [origin] at attaches
    rw [← contains_owner, Workflow.owner_of_exitThrough? exits]
    exact attaches

private theorem canAttach_of_enters (expr : Expr) {edge : EdgeId} {target : NodeId}
    (resolves : workflow.resolveEdge edge = .ok ⟨none, target⟩) :
    canAttach workflow expr edge = true := by
  obtain ⟨entry, found, origin⟩ := Workflow.origin_of_resolveEdge resolves
  rcases origin with ⟨origin, _⟩ | ⟨_, _, impossible⟩ | ⟨_, _, _, _, impossible⟩
  · rw [canAttach, found, Option.any_some, holdsSource, origin]
  · cases impossible
  · cases impossible

theorem emptyOrSolid_flatten_pair (hasDefaultExit : NodeId → Bool) {expr other : Expr}
    (formed : expr.EmptyOrSolid) (otherFormed : other.EmptyOrSolid) :
    (flatten hasDefaultExit [expr, other]).EmptyOrSolid := by
  apply emptyOrSolid_flatten
  intro member present
  rcases List.mem_cons.mp present with rfl | last
  · exact formed
  · exact List.mem_singleton.mp last ▸ otherFormed

private theorem covers_flatten_pair {expr : Expr} (covers : Covers workflow starts done expr)
    (start : Reference) :
    Covers workflow (starts ++ [start.owner]) done
      (flatten workflow.hasDefaultExit [expr, ofReference start.owner]) where
  formed := emptyOrSolid_flatten_pair _ covers.formed (Or.inr (solid_ofReference start.owner))
  heads := by
    intro head
    rw [(sameOutline_flatten _ _).heads, mem_heads_set]
    simp only [List.mem_cons, List.not_mem_nil, or_false, exists_eq_or_imp, exists_eq_left,
      covers.heads, heads_ofReference, start.owner_owner, List.mem_append]
    exact or_right_comm
  links := by
    intro link
    rw [(sameOutline_flatten _ _).links, mem_links_set]
    simp only [List.mem_cons, List.not_mem_nil, or_false, exists_eq_or_imp, exists_eq_left,
      covers.links, links_ofReference]

private theorem contains_flatten_pair (workflow : Workflow) {expr other : Expr}
    (formed : expr.EmptyOrSolid) (otherFormed : other.EmptyOrSolid) (reference : Reference) :
    (flatten workflow.hasDefaultExit [expr, other]).contains reference = true ↔
      expr.contains reference = true ∨ other.contains reference = true := by
  have wholeFormed := emptyOrSolid_flatten_pair workflow.hasDefaultExit formed otherFormed
  have outline := sameOutline_flatten workflow.hasDefaultExit [expr, other]
  rw [wholeFormed.contains_iff, formed.contains_iff, otherFormed.contains_iff, outline.heads]
  simp only [outline.links, mem_heads_set, mem_links_set, List.mem_cons, List.not_mem_nil,
    or_false, exists_eq_or_imp, exists_eq_left, exists_or]
  exact or_or_or_comm

theorem dangles_of_sourceOwner?_eq_none {expr : Expr} {edge : EdgeId}
    (noOwner : sourceOwner? workflow edge = none)
    (refused : canAttach workflow expr edge = false) :
    ∃ cause, workflow.resolveEdge edge = .error cause := by
  cases resolves : workflow.resolveEdge edge with
  | error cause => exact ⟨cause, rfl⟩
  | ok resolved =>
      obtain ⟨source, target⟩ := resolved
      cases source with
      | none =>
          rw [canAttach_of_enters expr resolves] at refused
          cases refused
      | some leaving =>
          rw [sourceOwner?_eq_some.mpr ⟨leaving, target, resolves, rfl⟩] at noOwner
          cases noOwner

theorem expr_restart (workflow : Workflow) (edge : EdgeId) (fresh : List EdgeId) (build : Build) :
    (build.restart workflow edge fresh).expr =
      match sourceOwner? workflow edge with
      | some owner => flatten workflow.hasDefaultExit [build.expr, ofReference owner]
      | none => build.expr := by
  have leaf := fst_seed workflow edge build.progress
  rcases seeded : seed workflow edge build.progress with ⟨source, progress⟩
  rw [seeded] at leaf
  unfold restart
  rw [seeded]
  cases owner : sourceOwner? workflow edge <;> rw [owner] at leaf <;> cases leaf <;> rfl

theorem queue_restart (workflow : Workflow) (edge : EdgeId) (fresh : List EdgeId) (build : Build) :
    (build.restart workflow edge fresh).queue =
      match sourceOwner? workflow edge with
      | some _ => ⟨build.queue.pending ++ [edge], fresh⟩
      | none => ⟨build.queue.pending, fresh⟩ := by
  have leaf := fst_seed workflow edge build.progress
  rcases seeded : seed workflow edge build.progress with ⟨source, progress⟩
  rw [seeded] at leaf
  unfold restart
  rw [seeded]
  cases owner : sourceOwner? workflow edge <;> rw [owner] at leaf <;> cases leaf <;> rfl

private theorem sound_restart {first : EdgeId} {rest : List EdgeId}
    (sound : Sound workflow starts scope before done build)
    (within : StartsWithin workflow scope starts)
    (isFresh : build.queue.fresh = first :: rest)
    (refused : canAttach workflow build.expr first = false) :
    ∃ newStarts newDone, StartsWithin workflow scope newStarts ∧
      Sound workflow newStarts scope before newDone (build.restart workflow first rest) := by
  have leaf := fst_seed workflow first build.progress
  have processed := processed_seed workflow first build.progress
  have placed := allPlaced_seed workflow first sound.allPlaced
  have accounts := sound.accounts
  rw [isFresh] at accounts
  have noEntry : ∀ edge ∈ rest, edge ∉ workflow.entryEdges := by
    intro edge inRest
    exact sound.noEntry edge (isFresh ▸ List.mem_cons_of_mem first inRest)
  rcases seeded : seed workflow first build.progress with ⟨source, progress⟩
  rw [seeded] at leaf processed placed
  unfold restart
  rw [seeded]
  cases owner : sourceOwner? workflow first with
  | some start =>
      obtain ⟨leaving, target, resolves, rfl⟩ := sourceOwner?_eq_some.mp owner
      rw [owner] at leaf
      cases leaf
      have holds := contains_flatten_pair workflow sound.covers.formed
        (Or.inr (solid_ofReference leaving.owner))
      refine ⟨starts ++ [leaving.owner], done, ?_, processed.trans sound.processed, ?_,
        covers_flatten_pair sound.covers leaving, ?_, noEntry, placed⟩
      · intro start isStart
        rcases List.mem_append.mp isStart with old | new
        · exact within start old
        · have inScope : first ∈ scope := accounts.subset
            (List.mem_append_right _ (List.mem_append_right _ List.mem_cons_self))
          exact ⟨first, inScope, List.mem_singleton.mp new ▸ owner⟩
      · rw [List.append_assoc]
        exact accounts
      · intro edge waits other place otherResolves
        rcases List.mem_append.mp waits with old | new
        · exact (holds other).mpr (Or.inl (sound.attached edge old other place otherResolves))
        · cases List.mem_singleton.mp new
          cases resolves.symm.trans otherResolves
          exact (holds leaving).mpr (Or.inr (contains_ofReference.mpr leaving.owner_owner))
  | none =>
      obtain ⟨cause, dangles⟩ := dangles_of_sourceOwner?_eq_none owner refused
      rw [owner] at leaf
      cases leaf
      refine ⟨starts, first :: done, within, ?_, ?_, sound.covers.of_dangling dangles,
        sound.attached, noEntry, placed.record nofun nofun⟩
      · exact congrArg (first :: ·) (processed.trans sound.processed)
      · refine List.Perm.trans ?_ accounts
        rw [List.cons_append, ← List.append_assoc, ← List.append_assoc]
        exact List.perm_middle.symm

private theorem sound_refill {first : EdgeId} {rest : List EdgeId}
    (sound : Sound workflow starts scope before done build)
    (within : StartsWithin workflow scope starts)
    (isFresh : build.queue.fresh = first :: rest) :
    ∃ newStarts newDone, StartsWithin workflow scope newStarts ∧
      Sound workflow newStarts scope before newDone (build.refill workflow first rest) := by
  have accounts := sound.accounts
  have noEntry := sound.noEntry
  rw [isFresh] at accounts noEntry
  unfold refill
  dsimp only
  split
  · refine ⟨starts, done, within, sound.processed, ?_, sound.covers, ?_, ?_, sound.allPlaced⟩
    · exact ((EdgeQueue.perm_enqueueWhere _ _).append_left done).trans accounts
    · intro edge waits
      rcases List.mem_append.mp waits with old | new
      · exact sound.attached edge old
      · exact attached_of_canAttach (List.mem_filter.mp new).2
    · intro edge stillFresh
      exact noEntry edge (List.mem_filter.mp stillFresh).1
  · rename_i noneAttaches
    apply sound_restart sound within isFresh
    rw [List.any_cons, Bool.or_eq_true, not_or] at noneAttaches
    exact Bool.eq_false_iff.mpr noneAttaches.1

/-! ### Whole components -/

theorem exhaust_of_fresh_eq_nil (workflow : Workflow) {build : Build}
    (noneFresh : build.queue.fresh = []) : build.exhaust workflow = build := by
  rw [exhaust]
  split
  · rfl
  · rename_i queueIs
    rw [queueIs] at noneFresh
    cases noneFresh

theorem exhaust_of_fresh_eq_cons (workflow : Workflow) {build : Build} {first : EdgeId}
    {rest : List EdgeId} (isFresh : build.queue.fresh = first :: rest) :
    build.exhaust workflow =
      ((build.refill workflow first rest).drain workflow).exhaust workflow := by
  rw [exhaust]
  split
  · rename_i queueIs
    rw [queueIs] at isFresh
    cases isFresh
  · rename_i queueIs
    rw [queueIs] at isFresh
    cases isFresh
    rfl

private theorem sound_exhaust (coherent : workflow.Coherent)
    (sound : Sound workflow starts scope before done build)
    (within : StartsWithin workflow scope starts) (noneWaits : build.queue.pending = []) :
    ∃ allStarts allDone, StartsWithin workflow scope allStarts ∧
      Sound workflow allStarts scope before allDone (build.exhaust workflow) ∧
      (build.exhaust workflow).queue = ⟨[], []⟩ := by
  fun_induction exhaust workflow build generalizing starts done with
  | case1 build pending queueIs =>
      rw [queueIs] at noneWaits
      cases noneWaits
      exact ⟨starts, done, within, sound, queueIs⟩
  | case2 build pending first rest queueIs ih =>
      have isFresh : build.queue.fresh = first :: rest := by rw [queueIs]
      obtain ⟨newStarts, newDone, newWithin, refilled⟩ := sound_refill sound within isFresh
      obtain ⟨drained, soundDrained, empty⟩ := sound_drain coherent refilled
      exact ih soundDrained newWithin empty

/-- A component's build ends with all edges of the component done. -/
theorem sound_component (coherent : workflow.Coherent) {component : Component}
    {progress : Progress} (distinct : (component.map Prod.fst).Nodup)
    (noEntry : ∀ edge ∈ component.map Prod.fst, edge ∉ workflow.entryEdges)
    (allPlaced : AllPlaced workflow progress.events.toList) :
    ∃ allStarts allDone, StartsWithin workflow (component.map Prod.fst) allStarts ∧
      Sound workflow allStarts (component.map Prod.fst) progress.processed allDone
        (Build.component workflow component progress) ∧
      allDone.Perm (component.map Prod.fst) := by
  obtain ⟨drained, soundDrained, noneWaits⟩ :=
    sound_drain coherent (sound_ofRoots distinct noEntry allPlaced)
  obtain ⟨allStarts, allDone, within, sound, queueIs⟩ :=
    sound_exhaust coherent soundDrained (startsWithin_rootOwners workflow component) noneWaits
  have accounts := sound.accounts
  rw [queueIs, List.append_nil, List.append_nil] at accounts
  exact ⟨allStarts, allDone, within, sound, accounts⟩

/-- A component covers all its edges. -/
theorem covers_component (coherent : workflow.Coherent) {component : Component}
    {progress : Progress} (distinct : (component.map Prod.fst).Nodup)
    (noEntry : ∀ edge ∈ component.map Prod.fst, edge ∉ workflow.entryEdges)
    (allPlaced : AllPlaced workflow progress.events.toList) :
    ∃ allStarts, StartsWithin workflow (component.map Prod.fst) allStarts ∧
      Covers workflow allStarts (component.map Prod.fst)
        (Build.component workflow component progress).expr ∧
      AllPlaced workflow (Build.component workflow component progress).progress.events.toList := by
  obtain ⟨allStarts, allDone, within, sound, all⟩ :=
    sound_component coherent distinct noEntry allPlaced
  exact ⟨allStarts, within, sound.covers.congr fun edge => all.mem_iff, sound.allPlaced⟩

/-! ### All components -/

structure CoverTogether (workflow : Workflow) (edges : List EdgeId) (exprs : List Expr) : Prop where
  heads : ∀ edge ∈ edges, ∀ head, workflow.Enters edge head → ∃ expr ∈ exprs, head ∈ expr.heads
  links : ∀ link, (∃ expr ∈ exprs, link ∈ expr.links) ↔ ∃ edge ∈ edges, workflow.Joins edge link

theorem CoverTogether.cons {expr : Expr} {exprs : List Expr} {edges others : List EdgeId}
    (covers : Covers workflow starts edges expr) (together : CoverTogether workflow others exprs) :
    CoverTogether workflow (edges ++ others) (expr :: exprs) where
  heads := by
    intro edge inside head enters
    rcases List.mem_append.mp inside with first | later
    · exact ⟨expr, List.mem_cons_self, (covers.heads head).mpr (Or.inr ⟨edge, first, enters⟩)⟩
    · obtain ⟨other, present, isHead⟩ := together.heads edge later head enters
      exact ⟨other, List.mem_cons_of_mem _ present, isHead⟩
  links := by
    intro link
    rw [List.exists_mem_cons_iff, covers.links, together.links]
    simp only [List.mem_append, or_and_right, exists_or]

private theorem CoverTogether.skip {exprs : List Expr} {edges others : List EdgeId}
    (covers : Covers workflow starts edges .empty)
    (together : CoverTogether workflow others exprs) :
    CoverTogether workflow (edges ++ others) exprs where
  heads := by
    intro edge inside head enters
    rcases List.mem_append.mp inside with first | later
    · cases (covers.heads head).mpr (Or.inr ⟨edge, first, enters⟩)
    · exact together.heads edge later head enters
  links := by
    intro link
    have nothing : ¬ ∃ edge ∈ edges, workflow.Joins edge link := by
      intro joined
      cases (covers.links link).mpr joined
    rw [together.links]
    simp only [List.mem_append, or_and_right, exists_or, or_iff_right nothing]

private theorem coverTogether_componentsFrom (coherent : workflow.Coherent)
    {groups : List Component} (distinct : ∀ group ∈ groups, (group.map Prod.fst).Nodup)
    (noEntry : ∀ group ∈ groups, ∀ edge ∈ group.map Prod.fst, edge ∉ workflow.entryEdges)
    (index : Nat) {progress : Progress} (allPlaced : AllPlaced workflow progress.events.toList) :
    CoverTogether workflow (groups.flatten.map Prod.fst)
        (componentsFrom workflow progress index groups).1 ∧
      AllPlaced workflow (componentsFrom workflow progress index groups).2.events.toList := by
  induction groups generalizing index progress with
  | nil =>
      refine ⟨⟨?_, ?_⟩, allPlaced⟩
      · intro edge impossible
        cases impossible
      · intro link
        simp [componentsFrom]
  | cons group groups ih =>
      have laterDistinct := fun other present => distinct other (List.mem_cons_of_mem group present)
      have laterNoEntry := fun other present => noEntry other (List.mem_cons_of_mem group present)
      obtain ⟨starts, _, covers, placed⟩ := covers_component coherent
        (distinct group List.mem_cons_self) (noEntry group List.mem_cons_self) allPlaced
      rw [componentsFrom, List.flatten_cons, List.map_append]
      dsimp only
      split
      · rename_i isEmpty
        rw [isEmpty_eq_true_iff] at isEmpty
        rw [isEmpty] at covers
        have omitted : AllPlaced workflow ((Build.component workflow group progress).progress.record
            (.componentOmitted index)).events.toList := placed.record nofun nofun
        obtain ⟨together, allDone⟩ := ih laterDistinct laterNoEntry (index + 1) omitted
        exact ⟨together.skip covers, allDone⟩
      · obtain ⟨together, allDone⟩ := ih laterDistinct laterNoEntry (index + 1) placed
        exact ⟨together.cons covers, allDone⟩

theorem mem_leftover (coherent : workflow.Coherent) {progress : Progress} {edge : EdgeId} :
    edge ∈ (leftover workflow progress).map Prod.fst ↔
      edge ∈ workflow.edges.ids ∧ edge ∉ progress.processed := by
  have fits := Nat.le_of_lt coherent.edgesFit
  rw [leftover, List.mem_map, Arena.mem_ids fits]
  constructor
  · intro present
    obtain ⟨⟨other, entry⟩, inside, rfl⟩ := present
    obtain ⟨stored, isLeft⟩ := List.mem_filter.mp inside
    refine ⟨⟨entry, (Arena.mem_enumerate fits).mp stored⟩, ?_⟩
    simpa [Progress.isProcessed] using isLeft
  · intro present
    obtain ⟨⟨entry, found⟩, notProcessed⟩ := present
    have isLeft : (!progress.isProcessed edge) = true := by
      simpa [Progress.isProcessed] using notProcessed
    have stored := (Arena.mem_enumerate fits).mpr found
    exact ⟨(edge, entry), List.mem_filter.mpr ⟨stored, isLeft⟩, rfl⟩

theorem nodup_leftover (coherent : workflow.Coherent) (progress : Progress) :
    ((leftover workflow progress).map Prod.fst).Nodup := by
  have inside : ((leftover workflow progress).map Prod.fst).Sublist workflow.edges.ids := by
    rw [← Arena.map_fst_enumerate]
    exact List.filter_sublist.map Prod.fst
  exact (Workflow.nodup_edge_ids coherent).sublist inside

theorem nodup_and_noEntry_of_mem_partition (coherent : workflow.Coherent) {progress : Progress}
    (entryDone : ∀ edge ∈ workflow.entryEdges, edge ∈ progress.processed) {group : Component}
    (present : group ∈ Component.partition (leftover workflow progress)) :
    (group.map Prod.fst).Nodup ∧ ∀ edge ∈ group.map Prod.fst, edge ∉ workflow.entryEdges := by
  refine ⟨Component.nodup_of_mem_partition present (nodup_leftover coherent progress), ?_⟩
  intro edge inside isEntry
  have isLeft := Component.subset_of_mem_partition present inside
  exact ((mem_leftover coherent).mp isLeft).2 (entryDone edge isEntry)

theorem components_eq (workflow : Workflow) (progress : Progress) :
    ∃ started, (started = progress ∨
        ∃ edges groups, started = progress.record (.leftOver edges groups)) ∧
      components workflow progress =
        componentsFrom workflow started 0 (Component.partition (leftover workflow progress)) := by
  unfold components
  split
  · rename_i nothing
    refine ⟨progress, Or.inl rfl, ?_⟩
    rw [nothing, Component.partition]
    rfl
  · exact ⟨_, Or.inr ⟨_, _, rfl⟩, rfl⟩

/-- The components cover the leftover edges between them. -/
theorem coverTogether_components (coherent : workflow.Coherent) {progress : Progress}
    (entryDone : ∀ edge ∈ workflow.entryEdges, edge ∈ progress.processed)
    (allPlaced : AllPlaced workflow progress.events.toList) :
    CoverTogether workflow ((leftover workflow progress).map Prod.fst)
        (components workflow progress).1 ∧
      AllPlaced workflow (components workflow progress).2.events.toList := by
  obtain ⟨started, isStart, same⟩ := components_eq workflow progress
  have startedPlaced : AllPlaced workflow started.events.toList := by
    rcases isStart with rfl | ⟨_, _, rfl⟩
    · exact allPlaced
    · exact allPlaced.record nofun nofun
  obtain ⟨together, allDone⟩ := coverTogether_componentsFrom coherent
    (fun group present => (nodup_and_noEntry_of_mem_partition coherent entryDone present).1)
    (fun group present => (nodup_and_noEntry_of_mem_partition coherent entryDone present).2)
    0 startedPlaced
  have sameEdges := (Component.perm_partition (leftover workflow progress)).map Prod.fst
  rw [same]
  refine ⟨⟨?_, ?_⟩, allDone⟩
  · intro edge inside
    exact together.heads edge (sameEdges.mem_iff.mpr inside)
  · intro link
    simp only [together.links, sameEdges.mem_iff]

end Build

end FlowGraph
