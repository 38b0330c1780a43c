import FlowGraph.Proofs.CanonicalForm
import FlowGraph.Proofs.Diamonds

/-!
Builds of workflows whose edges form a diamond. Of what waits, the next edge is always one with
which some more of the diamond is drawn, so the build ends with all of it.
-/

namespace FlowGraph

open FlowGraph.Build FlowGraph.Expr

namespace Diamond

variable {workflow : Workflow} {diamond : Diamond} {drawn : List ResolvedEdge} {expr : Expr}
  {pending : List EdgeId} {hop : ResolvedEdge}

/-! ### The next hop -/

private theorem mem_stem_of_fork {leaving : Reference} (isFork : diamond.fork = some leaving) :
    ∃ node ∈ diamond.stem, leaving = .node node :=
  (mem_of_endOf isFork).resolve_right fun ⟨_, impossible⟩ => nomatch impossible

section Next

variable (proper : diamond.Proper) {front rest left lefts right rights : List NodeId}
  {next : NodeId}
include proper

private theorem next_onStem (isStem : diamond.stem = front ++ next :: rest)
    (isHop : hop ∈ diamond.hops) (undrawn : hop ∉ hopsFrom none front)
    (attached : ∀ node, hop.source = some (.node node) → node ∈ front) :
    hop = ⟨endOf none front, next⟩ := by
  have nodupStem := (List.nodup_append.mp proper.distinct).1
  have disjointStem := proper.disjoint_stem
  rw [isStem] at nodupStem disjointStem
  have apart := List.disjoint_of_nodup_append nodupStem
  obtain ⟨nodes, last, isEnd⟩ := exists_front_and_last (List.cons_ne_nil next rest)
  have isFork : diamond.fork = some (.node last) := by
    rw [fork, isStem, isEnd, ← List.append_assoc, endOf_concat]
  -- No node of a branch is drawn, and the end of the stem is not, either.
  have offBranch : ∀ branch ⊆ (diamond.left ++ diamond.merge :: diamond.tail) ++ diamond.right,
      hop ∉ hopsFrom diamond.fork branch := by
    intro branch inside onBranch
    rcases source_of_mem_hopsFrom onBranch with atFork | ⟨node, isNode, isSource⟩
    · exact apart (attached last (atFork.trans isFork)) (by simp [isEnd])
    · exact disjointStem (List.mem_append_left _ (attached node isSource))
        (inside (List.dropLast_subset _ isNode))
  rcases mem_hopsAlong.mp isHop with onStem | onLeft | onRight
  · rw [isStem] at onStem
    obtain ⟨other, later, same, isNext⟩ := next_of_mem_hopsFrom onStem undrawn
      fun node isNode isSource => apart (attached node isSource) (List.dropLast_subset _ isNode)
    cases same
    exact isNext
  · exact absurd onLeft (offBranch _ (List.subset_append_left _ _))
  · refine absurd onRight (offBranch _ ?_)
    exact List.append_subset.mpr ⟨List.subset_append_right _ _, by simp⟩

private theorem next_onBranches
    (isLeft : diamond.left ++ diamond.merge :: diamond.tail = left ++ lefts)
    (isRight : diamond.right = right ++ rights) (isHop : hop ∈ diamond.hops)
    (undrawn : hop ∉ diamond.hopsAlong left right)
    (attached : ∀ node, hop.source = some (.node node) →
      node ∈ diamond.stem ∨ node ∈ left ∨ node ∈ right) :
    (∃ next later, lefts = next :: later ∧ hop = ⟨endOf diamond.fork left, next⟩) ∨
      ∃ next later, rights ++ [diamond.merge] = next :: later ∧
        hop = ⟨endOf diamond.fork right, next⟩ := by
  rw [mem_hopsAlong, not_or, not_or] at undrawn
  obtain ⟨offStem, offLeft, offRight⟩ := undrawn
  have disjointStem := proper.disjoint_stem
  have disjointRight := proper.disjoint_right
  have nodupLeft := proper.nodup_left
  have nodupRight := proper.nodup_right
  rw [isLeft, isRight] at disjointStem disjointRight
  rw [isLeft] at nodupLeft
  rw [isRight] at nodupRight
  rcases (mem_hopsAlong.mp isHop).resolve_left offStem with onLeft | onRight
  · rw [isLeft] at onLeft
    refine Or.inl (next_of_mem_hopsFrom onLeft offLeft ?_)
    intro node isNode isSource
    have behind := List.dropLast_subset _ isNode
    rcases attached node isSource with inStem | inLeft | inRight
    · exact disjointStem inStem (by simp [behind])
    · exact List.disjoint_of_nodup_append nodupLeft inLeft behind
    · exact disjointRight (List.mem_append_right _ behind) (List.mem_append_left _ inRight)
  · rw [isRight, List.append_assoc] at onRight
    refine Or.inr (next_of_mem_hopsFrom onRight offRight ?_)
    rw [List.dropLast_concat]
    intro node behind isSource
    rcases attached node isSource with inStem | inLeft | inRight
    · exact disjointStem inStem (by simp [behind])
    · exact disjointRight (List.mem_append_left _ inLeft) (List.mem_append_right _ behind)
    · exact List.disjoint_of_nodup_append nodupRight inRight behind

private theorem next_atFork {first second : NodeId} (isLeft : diamond.left = first :: lefts)
    (isRight : diamond.right = second :: rights) (isHop : hop ∈ diamond.hops)
    (undrawn : hop ∉ hopsFrom none diamond.stem)
    (attached : ∀ node, hop.source = some (.node node) → node ∈ diamond.stem) :
    hop = ⟨diamond.fork, first⟩ ∨ hop = ⟨diamond.fork, second⟩ := by
  have offBranches : hop ∉ diamond.hopsAlong [] [] := by
    simpa [mem_hopsAlong, hopsFrom] using undrawn
  rcases next_onBranches proper (List.nil_append _).symm (List.nil_append _).symm isHop offBranches
    (fun node isSource => Or.inl (attached node isSource)) with
    ⟨next, later, same, isNext⟩ | ⟨next, later, same, isNext⟩
  · rw [isLeft] at same
    cases same
    exact Or.inl isNext
  · rw [isRight] at same
    cases same
    exact Or.inr isNext

private theorem meet_not_mem_left {branch : List NodeId}
    (inside : branch ⊆ diamond.left ++ diamond.merge :: diamond.tail) :
    ⟨endOf diamond.fork diamond.right, diamond.merge⟩ ∉ hopsFrom diamond.fork branch := by
  obtain ⟨nodes, last, isRight⟩ := exists_front_and_last proper.rightInhabited
  have inRight : last ∈ diamond.right := by simp [isRight]
  have isEnd : endOf diamond.fork diamond.right = some (.node last) := by
    rw [isRight, endOf_concat]
  rw [isEnd]
  intro onLeft
  rcases source_of_mem_hopsFrom onLeft with atFork | ⟨node, isNode, same⟩
  · obtain ⟨stemEnd, inStem, isLast⟩ := mem_stem_of_fork atFork.symm
    cases isLast
    exact proper.disjoint_stem inStem (List.mem_append_right _ inRight)
  · cases same
    exact proper.disjoint_right (inside (List.dropLast_subset _ isNode)) inRight

private theorem meet_not_mem_hopsAlong (isLeft : diamond.left ++ diamond.merge :: diamond.tail =
      left ++ lefts) (isRight : diamond.right = right ++ rights) :
    ⟨endOf diamond.fork diamond.right, diamond.merge⟩ ∉ diamond.hopsAlong left right := by
  intro isHop
  rcases mem_hopsAlong.mp isHop with onStem | onLeft | onRight
  · exact proper.merge_not_mem_stem (target_of_mem_hopsFrom onStem)
  · exact meet_not_mem_left proper (isLeft ▸ List.subset_append_left left lefts) onLeft
  · have inRight := List.mem_append_left rights (target_of_mem_hopsFrom onRight)
    exact proper.merge_not_mem_right (isRight ▸ inRight)

private theorem eq_nil_of_hops_subset (isTail : diamond.tail = front ++ rest)
    (all : diamond.hops ⊆ diamond.hopsAlong (diamond.left ++ diamond.merge :: front)
      (diamond.right ++ [diamond.merge])) : rest = [] := by
  rcases List.eq_nil_or_concat rest with isNil | ⟨later, last, isConcat⟩
  · exact isNil
  · rw [List.concat_eq_append] at isConcat
    have isWhole : diamond.left ++ diamond.merge :: diamond.tail =
        (diamond.left ++ diamond.merge :: front) ++ rest := by
      rw [isTail, ← List.cons_append, List.append_assoc]
    have nodupLeft := proper.nodup_left
    rw [isWhole] at nodupLeft
    have ahead := List.disjoint_of_nodup_append nodupLeft
    have isLast : last ∈ rest := by simp [isConcat]
    have inLeft : last ∈ diamond.left ++ diamond.merge :: diamond.tail :=
      isWhole ▸ List.mem_append_right _ isLast
    obtain ⟨hop, onLeft, rfl⟩ := @exists_hop_to diamond.fork _ _ inLeft
    rcases mem_hopsAlong.mp (all (mem_hopsAlong.mpr (Or.inr (Or.inl onLeft)))) with
      onStem | inFront | onRight
    · exact (proper.disjoint_stem (target_of_mem_hopsFrom onStem)
        (List.mem_append_left _ inLeft)).elim
    · exact (ahead (target_of_mem_hopsFrom inFront) isLast).elim
    · rcases List.mem_append.mp (target_of_mem_hopsFrom onRight) with inRight | isMerge
      · exact (proper.disjoint_right inLeft inRight).elim
      · rw [List.mem_singleton.mp isMerge] at isLast
        exact (ahead (by simp) isLast).elim

theorem nodup_hops : diamond.hops.Nodup := by
  have nodupStem := (List.nodup_append.mp proper.distinct).1
  have nodupRight : (diamond.right ++ [diamond.merge]).Nodup := by
    refine List.nodup_append.mpr ⟨proper.nodup_right, List.nodup_singleton _, ?_⟩
    rintro node inRight _ isMerge rfl
    rw [List.mem_singleton.mp isMerge] at inRight
    exact proper.merge_not_mem_right inRight
  refine (nodup_hopsFrom none nodupStem).append
    ((nodup_hopsFrom _ proper.nodup_left).append (nodup_hopsFrom _ nodupRight) ?_) ?_
  · intro hop onLeft onRight
    rw [hopsFrom_append] at onRight
    rcases List.mem_append.mp onRight with alongRight | isMeet
    · exact proper.disjoint_right (target_of_mem_hopsFrom onLeft)
        (target_of_mem_hopsFrom alongRight)
    · rw [List.mem_singleton.mp isMeet] at onLeft
      exact meet_not_mem_left proper (List.Subset.refl _) onLeft
  · intro hop onStem onBranches
    refine proper.disjoint_stem (target_of_mem_hopsFrom onStem) ?_
    rcases List.mem_append.mp onBranches with onLeft | onRight
    · exact List.mem_append_left _ (target_of_mem_hopsFrom onLeft)
    · have inRight := target_of_mem_hopsFrom onRight
      simp only [List.mem_append, List.mem_cons, List.not_mem_nil] at inRight ⊢
      grind

theorem hasLink_merge (draws : workflow.Draws diamond.hops) :
    ∀ node ∈ diamond.right, workflow.hasLink diamond.merge node = false := by
  intro node inRight
  rw [Bool.eq_false_iff]
  intro linked
  have isHop := draws.links _ (meet_mem_hops diamond) linked
  rcases mem_hopsAlong.mp isHop with onStem | onLeft | onRight
  · exact proper.disjoint_stem (target_of_mem_hopsFrom onStem) (List.mem_append_right _ inRight)
  · exact proper.disjoint_right (target_of_mem_hopsFrom onLeft) inRight
  · rcases source_of_mem_hopsFrom onRight with atFork | ⟨other, isOther, same⟩
    · obtain ⟨stemEnd, inStem, isMerge⟩ := mem_stem_of_fork atFork.symm
      cases isMerge
      exact proper.merge_not_mem_stem inStem
    · cases same
      rw [List.dropLast_concat] at isOther
      exact proper.merge_not_mem_right isOther

end Next

/-! ### All hops -/

private theorem draws_flipped (draws : workflow.Draws diamond.hops) :
    workflow.Draws diamond.flipped.hops :=
  draws.congr fun _ => mem_hops_flipped

private theorem left_cases {left rest : List NodeId}
    (isLeft : diamond.left ++ diamond.merge :: diamond.tail = left ++ rest) :
    (∃ lefts, diamond.left = left ++ lefts) ∨
      ∃ front, left = diamond.left ++ diamond.merge :: front ∧ diamond.tail = front ++ rest := by
  rcases List.append_eq_append_iff.mp isLeft with ⟨front, isLonger, isRest⟩ | ⟨lefts, isShort, _⟩
  · cases front with
    | nil => exact Or.inl ⟨[], by rw [isLonger, List.append_nil, List.append_nil]⟩
    | cons first front =>
        obtain ⟨rfl, isTail⟩ := List.cons_eq_cons.mp isRest
        exact Or.inr ⟨front, isLonger, isTail⟩
  · exact Or.inl ⟨lefts, isShort⟩

section Run

variable (coherent : workflow.Coherent) (complete : workflow.Complete) {done : List EdgeId}
  {build : Build} {edge : EdgeId}
include coherent complete

private theorem exists_waiting_atFork (proper : diamond.Proper)
    (draws : workflow.Draws diamond.hops)
    (draft : Draft workflow (hopsFrom none diamond.stem) done build)
    (shows : build.expr = path diamond.stem) {second : NodeId} {rights : List NodeId}
    (isRight : diamond.right = second :: rights) :
    ∃ other ∈ build.queue.pending, workflow.resolveEdge other = .ok ⟨diamond.fork, second⟩ := by
  have inRight : second ∈ diamond.right := by simp [isRight]
  have isHop : ⟨diamond.fork, second⟩ ∈ diamond.hops := by
    simp [hops, mem_hopsAlong, isRight, hopsFrom]
  obtain ⟨other, resolves⟩ := draws.drawn _ isHop
  refine ⟨other, draft.waits_of_contains coherent complete draws resolves ?_ ?_, resolves⟩
  · exact fun onStem => proper.disjoint_stem (target_of_mem_hopsFrom onStem)
      (List.mem_append_right _ inRight)
  · intro leaving isFork
    obtain ⟨node, inStem, rfl⟩ := mem_stem_of_fork isFork
    rw [shows, contains_path]
    exact inStem

private theorem next_pending_atFork (proper : diamond.Proper) (draws : workflow.Draws diamond.hops)
    (draft : Draft workflow (hopsFrom none diamond.stem) done build)
    (shows : build.expr = path diamond.stem) {first second : NodeId} {lefts rights : List NodeId}
    (isLeft : diamond.left = first :: lefts) (isRight : diamond.right = second :: rights)
    (waits : build.queue.pending = edge :: pending)
    (resolves : workflow.resolveEdge edge = .ok ⟨diamond.fork, first⟩) :
    ∃ other later, pending = other :: later ∧
      workflow.resolveEdge other = .ok ⟨diamond.fork, second⟩ := by
  -- The edge to the other branch waits as well, so another edge is next.
  obtain ⟨other, present, otherResolves⟩ :=
    exists_waiting_atFork coherent complete proper draws draft shows isRight
  rw [waits] at present
  have isLater : other ∈ pending := by
    refine (List.mem_cons.mp present).resolve_left ?_
    rintro rfl
    cases resolves.symm.trans otherResolves
    exact proper.first_ne isLeft isRight rfl
  obtain ⟨next, later, rfl⟩ := List.exists_cons_of_ne_nil (List.ne_nil_of_mem isLater)
  refine ⟨next, later, rfl, ?_⟩
  have nextWaits : next ∈ build.queue.pending := by simp [waits]
  obtain ⟨hop, isHop, nextResolves, undrawn, attached⟩ := draft.of_waits coherent draws nextWaits
  have inStem : ∀ node, hop.source = some (.node node) → node ∈ diamond.stem := by
    intro node isSource
    have inside := attached _ isSource
    rw [shows, contains_path] at inside
    exact inside
  rcases next_atFork proper isLeft isRight isHop undrawn inStem with rfl | rfl
  · have distinct := draft.nodup_pending coherent
    rw [waits, draws.once nextResolves resolves] at distinct
    exact absurd List.mem_cons_self (List.nodup_cons.mp distinct).1
  · exact nextResolves

private theorem leads_next_onStem (proper : diamond.Proper) (draws : workflow.Draws diamond.hops)
    {front rest : List NodeId} (isStem : diamond.stem = front ++ rest)
    (draft : Draft workflow (hopsFrom none front) done build) (shows : build.expr = path front)
    (waits : build.queue.pending = edge :: pending) :
    ∃ hop, workflow.resolveEdge edge = .ok hop ∧
      Leads workflow diamond (hopsFrom none front) (path front) pending hop := by
  have isFirst : edge ∈ build.queue.pending := by simp [waits]
  obtain ⟨hop, isHop, resolves, undrawn, attached⟩ := draft.of_waits coherent draws isFirst
  refine ⟨hop, resolves, ?_⟩
  have inFront : ∀ node, hop.source = some (.node node) → node ∈ front := by
    intro node isSource
    have inside := attached _ isSource
    rw [shows, contains_path] at inside
    exact inside
  cases rest with
  | cons next rest =>
      rw [next_onStem proper isStem isHop undrawn inFront]
      exact leads_onStem proper isStem
  | nil =>
      rw [List.append_nil] at isStem
      subst isStem
      obtain ⟨first, lefts, isLeft⟩ := List.exists_cons_of_ne_nil proper.leftInhabited
      obtain ⟨second, rights, isRight⟩ := List.exists_cons_of_ne_nil proper.rightInhabited
      rcases next_atFork proper isLeft isRight isHop undrawn inFront with rfl | rfl
      · obtain ⟨other, later, rfl, otherResolves⟩ := next_pending_atFork coherent complete
          proper draws draft shows isLeft isRight waits resolves
        exact leads_fork_first proper isLeft isRight otherResolves
      · obtain ⟨other, later, rfl, otherResolves⟩ := next_pending_atFork coherent complete
          proper.flipped (draws_flipped draws) draft shows isRight isLeft waits resolves
        exact (leads_fork_first proper.flipped isRight isLeft otherResolves).mirrored

omit complete in
private theorem leads_next_apart (proper : diamond.Proper) (draws : workflow.Draws diamond.hops)
    {left lefts right rights : List NodeId} {ways : List (List NodeId)}
    (isLeft : diamond.left ++ diamond.merge :: diamond.tail = left ++ lefts)
    (isRight : diamond.right = right ++ rights) (leftInhabited : left ≠ [])
    (rightInhabited : right ≠ []) (areWays : ways.Perm [left, right])
    (draft : Draft workflow (diamond.hopsAlong left right) done build)
    (shows : build.expr = diamond.branching ways) (waits : build.queue.pending = edge :: pending) :
    ∃ hop, workflow.resolveEdge edge = .ok hop ∧
      Leads workflow diamond (diamond.hopsAlong left right) (diamond.branching ways) pending
        hop := by
  have isFirst : edge ∈ build.queue.pending := by simp [waits]
  obtain ⟨hop, isHop, resolves, undrawn, attached⟩ := draft.of_waits coherent draws isFirst
  refine ⟨hop, resolves, ?_⟩
  have inside : ∀ node, hop.source = some (.node node) →
      node ∈ diamond.stem ∨ node ∈ left ∨ node ∈ right := by
    intro node isSource
    have present := attached _ isSource
    rw [shows, contains_branching] at present
    simpa [areWays.mem_iff] using present
  rcases next_onBranches proper isLeft isRight isHop undrawn inside with
    ⟨next, later, rfl, rfl⟩ | ⟨next, later, isNext, rfl⟩
  · exact leads_left proper isLeft isRight leftInhabited rightInhabited areWays
  · cases rights with
    | cons second rights =>
        cases isNext
        exact leads_right proper isLeft isRight leftInhabited rightInhabited areWays
    | nil =>
        cases isNext
        rw [List.append_nil] at isRight
        subst isRight
        rcases left_cases isLeft with ⟨rest, isShort⟩ | ⟨front, rfl, isTail⟩
        · exact leads_right_ahead proper isShort leftInhabited areWays
        · exact leads_merge proper isTail (hasLink_merge proper draws) areWays

omit complete in
private theorem leads_next_merged (proper : diamond.Proper) (draws : workflow.Draws diamond.hops)
    {front rest : List NodeId} {branches : List (List NodeId)}
    (isTail : diamond.tail = front ++ rest)
    (areBranches : branches.Perm [diamond.left, diamond.right])
    (draft : Draft workflow (diamond.hopsAlong (diamond.left ++ diamond.merge :: front)
      (diamond.right ++ [diamond.merge])) done build)
    (shows : build.expr = (diamond.branching branches).andThen (path (diamond.merge :: front)))
    (waits : build.queue.pending = edge :: pending) :
    ∃ hop, workflow.resolveEdge edge = .ok hop ∧
      Leads workflow diamond (diamond.hopsAlong (diamond.left ++ diamond.merge :: front)
          (diamond.right ++ [diamond.merge]))
        ((diamond.branching branches).andThen (path (diamond.merge :: front))) pending hop := by
  have isFirst : edge ∈ build.queue.pending := by simp [waits]
  obtain ⟨hop, isHop, resolves, undrawn, attached⟩ := draft.of_waits coherent draws isFirst
  refine ⟨hop, resolves, ?_⟩
  have isLeft : diamond.left ++ diamond.merge :: diamond.tail =
      (diamond.left ++ diamond.merge :: front) ++ rest := by
    rw [isTail, ← List.cons_append, List.append_assoc]
  have inside : ∀ node, hop.source = some (.node node) →
      node ∈ diamond.stem ∨ node ∈ diamond.left ++ diamond.merge :: front ∨
        node ∈ diamond.right := by
    intro node isSource
    have present := attached _ isSource
    rw [shows, contains_andThen, contains_branching, contains_path] at present
    simp only [areBranches.mem_iff, List.mem_pair, exists_eq_or_imp, exists_eq_left,
      List.mem_append] at present ⊢
    grind
  rw [mem_hopsAlong_right, not_or] at undrawn
  obtain ⟨notMeet, ahead⟩ := undrawn
  rcases next_onBranches proper isLeft (List.append_nil _).symm isHop ahead inside with
    ⟨next, later, rfl, rfl⟩ | ⟨next, later, isNext, rfl⟩
  · exact leads_tail proper isTail areBranches
  · cases isNext
    exact absurd rfl notMeet

/-- Whatever edge is next has a place in a diamond of which some is drawn. -/
theorem Stage.leads {waiting : List EdgeId} (stage : Stage workflow diamond drawn expr waiting)
    (proper : diamond.Proper) (draws : workflow.Draws diamond.hops)
    (draft : Draft workflow drawn done build) (shows : build.expr = expr)
    (waits : build.queue.pending = edge :: pending) (isQueue : build.queue.pending = waiting) :
    ∃ hop, workflow.resolveEdge edge = .ok hop ∧
      Leads workflow diamond drawn expr pending hop := by
  induction stage with
  | onStem isStem =>
      exact leads_next_onStem coherent complete proper draws isStem draft shows waits
  | forked isLeft isRight resolves =>
      cases waits.symm.trans isQueue
      exact ⟨_, resolves, leads_fork_second proper isLeft isRight⟩
  | apart isLeft isRight leftInhabited rightInhabited areWays =>
      exact leads_next_apart coherent proper draws isLeft isRight leftInhabited rightInhabited
        areWays draft shows waits
  | merged isTail areBranches =>
      exact leads_next_merged coherent proper draws isTail areBranches draft shows waits
  | mirrored stage ih =>
      obtain ⟨hop, resolves, leads⟩ := ih proper.flipped (draws_flipped draws) draft shows isQueue
      exact ⟨hop, resolves, leads.mirrored⟩

theorem Stage.drain (proper : diamond.Proper)
    (draws : workflow.Draws diamond.hops) (draft : Draft workflow drawn done build)
    (stage : Stage workflow diamond drawn build.expr build.queue.pending) :
    ∃ allDrawn allDone, Draft workflow allDrawn allDone (build.drain workflow) ∧
      Stage workflow diamond allDrawn (build.drain workflow).expr
        (build.drain workflow).queue.pending := by
  fun_induction Build.drain workflow build generalizing drawn done with
  | case1 build fresh queueIs => exact ⟨drawn, done, draft, stage⟩
  | case2 build edge pending fresh queueIs ih =>
      have waits : build.queue.pending = edge :: pending := by rw [queueIs]
      obtain ⟨hop, resolves, folded, others, found, grown, stages⟩ :=
        stage.leads coherent complete proper draws draft rfl waits rfl
      obtain ⟨placed, isFolded, behind⟩ := draft.place coherent queueIs resolves found grown
      exact ih placed (isFolded ▸ stages _ behind)

private theorem hops_subset_drawn (draws : workflow.Draws diamond.hops)
    (draft : Draft workflow drawn done build) (noneWaits : build.queue.pending = []) :
    diamond.hops ⊆ drawn := by
  have onLeft : hopsFrom none
      (diamond.stem ++ (diamond.left ++ diamond.merge :: diamond.tail)) ⊆ drawn := by
    apply draft.hopsFrom_subset_drawn coherent complete draws noneWaits
    · intro hop isHop
      rw [hopsFrom_append] at isHop
      simp only [hops, mem_hopsAlong, fork, List.mem_append] at isHop ⊢
      grind
    · intro leaving impossible
      cases impossible
  rw [hopsFrom_append] at onLeft
  have onRight : hopsFrom diamond.fork (diamond.right ++ [diamond.merge]) ⊆ drawn := by
    apply draft.hopsFrom_subset_drawn coherent complete draws noneWaits
    · exact List.Subset.trans (List.subset_append_right _ _) (List.subset_append_right _ _)
    · intro leaving isFork
      obtain ⟨node, inStem, rfl⟩ := mem_stem_of_fork isFork
      obtain ⟨hop, onStem, rfl⟩ := @exists_hop_to none _ _ inStem
      exact draft.contains_target (onLeft (List.mem_append_left _ onStem))
  rw [hops, hopsAlong, ← List.append_assoc]
  exact List.append_subset.mpr ⟨onLeft, onRight⟩

end Run

theorem Stage.complete {waiting : List EdgeId} (stage : Stage workflow diamond drawn expr waiting)
    (proper : diamond.Proper) (all : diamond.hops ⊆ drawn) :
    ∃ branches : List (List NodeId), branches.Perm [diamond.left, diamond.right] ∧
      expr = (diamond.branching branches).andThen (path (diamond.merge :: diamond.tail)) := by
  have meets := all (meet_mem_hops diamond)
  induction stage with
  | @onStem diamond front rest waiting isStem =>
      have inFront : diamond.merge ∈ front := target_of_mem_hopsFrom meets
      have inStem : diamond.merge ∈ diamond.stem := isStem ▸ List.mem_append_left rest inFront
      exact (proper.merge_not_mem_stem inStem).elim
  | @forked diamond first lefts second rights other waiting isLeft isRight resolves =>
      have isLonger : diamond.left ++ diamond.merge :: diamond.tail =
          [first] ++ (lefts ++ diamond.merge :: diamond.tail) := by
        rw [isLeft]
        rfl
      exact (meet_not_mem_hopsAlong proper isLonger (List.nil_append _).symm meets).elim
  | apart isLeft isRight leftInhabited rightInhabited areWays =>
      exact (meet_not_mem_hopsAlong proper isLeft isRight meets).elim
  | @merged diamond front rest waiting branches isTail areBranches =>
      rw [eq_nil_of_hops_subset proper isTail all, List.append_nil] at isTail
      rw [isTail]
      exact ⟨branches, areBranches, rfl⟩
  | @mirrored diamond drawn expr waiting stage ih =>
      have allFlipped : diamond.flipped.hops ⊆ drawn := fun _ isHop =>
        all (mem_hops_flipped.mp isHop)
      obtain ⟨branches, areBranches, shows⟩ :=
        ih proper.flipped allFlipped (allFlipped (meet_mem_hops _))
      exact ⟨branches, areBranches.trans (.swap _ _ _), shows⟩

theorem canonical_shape {branches : List (List NodeId)}
    (areBranches : branches.Perm [diamond.left, diamond.right]) :
    ((diamond.branching branches).andThen (path (diamond.merge :: diamond.tail))).canonical =
      diamond.shape.canonical := by
  have sameSet : (Expr.set (branches.map path)).canonical =
      (Expr.set [path diamond.left, path diamond.right]).canonical :=
    (Reorders.here (areBranches.map path)).canonical_eq
  have isShape : diamond.shape = ((path diamond.stem).andThen
      (.set [path diamond.left, path diamond.right])).andThen
        (path (diamond.merge :: diamond.tail)) := by
    rw [shape, List.append_assoc, chain_append, andThen_assoc, List.cons_append, chain_cons]
    rfl
  rw [isShape, branching, canonical_andThen, canonical_andThen, sameSet, ← canonical_andThen,
    ← canonical_andThen]

/-- A workflow whose edges are the hops of a diamond has one expression: the stem, the branches
side by side, and then what comes where they meet. -/
theorem compile (coherent : workflow.Coherent) (complete : workflow.Complete)
    (proper : diamond.Proper) (draws : workflow.Draws diamond.hops)
    (noTrigger : entryTriggers workflow = []) :
    workflow.compile.components = [] ∧
      workflow.compile.main.canonical = diamond.shape.canonical := by
  obtain ⟨progress, isDrained, atStart⟩ := Draft.start coherent
  have stage : Stage workflow diamond (hopsFrom none []) (mainStart workflow progress).expr
      (mainStart workflow progress).queue.pending := by
    have vacant : (mainStart workflow progress).expr = path [] := by
      rw [mainStart, noTrigger]
      rfl
    rw [vacant]
    exact .onStem (List.nil_append _).symm
  obtain ⟨drawn, done, draft, stage⟩ := Stage.drain coherent complete proper draws atStart stage
  rw [← isDrained] at draft stage
  have all := hops_subset_drawn coherent complete draws draft (pending_mainBuild workflow)
  obtain ⟨branches, areBranches, shows⟩ := stage.complete proper all
  refine ⟨draft.components_eq_nil coherent draws all, ?_⟩
  have isMain : workflow.compile.main = workflow.mainBuild.expr := rfl
  rw [isMain, shows, canonical_shape areBranches]

end Diamond

end FlowGraph
