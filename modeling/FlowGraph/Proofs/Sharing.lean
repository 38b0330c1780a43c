import FlowGraph.Proofs.Flattening

/-!
Sharing what the members of a set begin or end with keeps the outline of the set.

A shared ending is put behind every branch, also behind those whose own tail is a
shorter beginning of it. No link is invented by that: the branch with the whole tail
holds every link of the tail already.
-/

namespace FlowGraph.Expr

variable {hasDefaultExit : NodeId → Bool}

/-! ### Shared beginnings -/

private theorem commonBeginning_prefix (left right : List Expr) :
    commonBeginning left right <+: left ∧ commonBeginning left right <+: right := by
  induction left generalizing right with
  | nil => exact ⟨List.prefix_refl [], List.nil_prefix⟩
  | cons head lefts ih =>
      cases right with
      | nil => exact ⟨List.nil_prefix, List.prefix_refl []⟩
      | cons other rights =>
          rw [commonBeginning]
          by_cases same : head = other
          · rw [if_pos same]
            subst same
            exact ⟨(List.prefix_cons_inj head).mpr (ih rights).1,
              (List.prefix_cons_inj head).mpr (ih rights).2⟩
          · rw [if_neg same]
            exact ⟨List.nil_prefix, List.nil_prefix⟩

private theorem foldl_commonBeginning_prefix (first : List Expr) (rest : List (List Expr)) :
    rest.foldl commonBeginning first <+: first ∧
      ∀ steps ∈ rest, rest.foldl commonBeginning first <+: steps := by
  induction rest generalizing first with
  | nil =>
      refine ⟨List.prefix_refl first, ?_⟩
      intro steps impossible
      cases impossible
  | cons next rest ih =>
      have both := commonBeginning_prefix first next
      obtain ⟨ofCommon, ofRest⟩ := ih (commonBeginning first next)
      refine ⟨ofCommon.trans both.1, ?_⟩
      intro steps member
      rcases List.mem_cons.mp member with rfl | inRest
      · exact ofCommon.trans both.2
      · exact ofRest steps inRest

private theorem sharedBeginning_prefix {lists : List (List Expr)} {steps : List Expr}
    (member : steps ∈ lists) : sharedBeginning lists <+: steps := by
  cases lists with
  | nil => cases member
  | cons first rest =>
      obtain ⟨ofFirst, ofRest⟩ := foldl_commonBeginning_prefix first rest
      rcases List.mem_cons.mp member with rfl | inRest
      · exact ofFirst
      · exact ofRest steps inRest

/-- What a shared beginning is: the shared steps and what each member has behind them. -/
theorem shareBeginning?_cases {members : List Expr} {expr : Expr}
    (formed : shareBeginning? hasDefaultExit members = some expr) :
    members ≠ [] ∧ ∃ shared, shared ≠ [] ∧
      (∀ member ∈ members, member.steps = shared ++ member.steps.drop shared.length) ∧
      expr = (chain shared).andThen
        (flatten hasDefaultExit
          (members.map fun member => chain (member.steps.drop shared.length))) := by
  simp only [shareBeginning?, Option.ite_none_left_eq_some, Option.some.injEq] at formed
  obtain ⟨several, nonempty, same⟩ := formed
  refine ⟨?_, sharedBeginning (members.map steps), ?_, ?_, ?_⟩
  · intro none
    subst none
    exact several rfl
  · intro none
    exact nonempty (List.isEmpty_iff.mpr none)
  · intro member present
    have beginning := sharedBeginning_prefix (List.mem_map_of_mem (f := Expr.steps) present)
    exact (List.prefix_iff_eq_append.mp beginning).symm
  · rw [← same, List.map_map]
    rfl

private theorem solid_remainder {shared : List Expr} {member : Expr} (solid : member.Solid)
    (occupied : chain (member.steps.drop shared.length) ≠ .empty) :
    (chain (member.steps.drop shared.length)).Solid := by
  apply solid_chain
  · intro none
    rw [none] at occupied
    exact occupied rfl
  · intro step inRest
    exact solid.of_mem_steps step (List.mem_of_mem_drop inRest)

section SharedBeginning

variable {members : List Expr} {shared : List Expr}

private theorem solid_shared (inhabited : members ≠ []) (occupied : shared ≠ [])
    (solid : ∀ member ∈ members, member.Solid)
    (split : ∀ member ∈ members, member.steps = shared ++ member.steps.drop shared.length) :
    (chain shared).Solid := by
  obtain ⟨member, present⟩ := List.exists_mem_of_ne_nil members inhabited
  apply solid_chain occupied
  intro step inShared
  apply (solid member present).of_mem_steps step
  rw [split member present]
  exact List.mem_append_left _ inShared

private theorem solid_remainders (solid : ∀ member ∈ members, member.Solid) :
    ∀ remainder ∈ members.map fun member => chain (member.steps.drop shared.length),
      remainder ≠ .empty → remainder.Solid := by
  intro remainder inRemainders occupied
  obtain ⟨member, present, same⟩ := List.mem_map.mp inRemainders
  subst same
  exact solid_remainder (solid member present) occupied

theorem solid_shareBeginning {expr : Expr} (solid : ∀ member ∈ members, member.Solid)
    (formed : shareBeginning? hasDefaultExit members = some expr) : expr.Solid := by
  obtain ⟨inhabited, shared, occupied, split, same⟩ := shareBeginning?_cases formed
  have sharedSolid := solid_shared inhabited occupied solid split
  rw [same]
  by_cases vacant : flatten hasDefaultExit
      (members.map fun member => chain (member.steps.drop shared.length)) = .empty
  · rw [vacant]
    exact sharedSolid
  · exact sharedSolid.andThen (solid_flatten_of_ne_empty (solid_remainders solid) vacant)

/-- Taking a shared beginning out of a set keeps its heads and its links. -/
theorem sameOutline_shareBeginning {expr : Expr} (solid : ∀ member ∈ members, member.Solid)
    (formed : shareBeginning? hasDefaultExit members = some expr) :
    SameOutline expr (.set members) := by
  obtain ⟨inhabited, shared, occupied, split, rfl⟩ := shareBeginning?_cases formed
  let remainder := fun member : Expr => chain (member.steps.drop shared.length)
  have sharedSolid := solid_shared inhabited occupied solid split
  have eachMember : ∀ member ∈ members,
      SameOutline (.sequence (chain shared) (remainder member)) member := by
    intro member present
    have stepsSolid := (solid member present).of_mem_steps
    rw [split member present] at stepsSolid
    have cut := sameOutline_chain_append occupied stepsSolid
    rw [← split member present] at cut
    exact cut.symm.trans (sameGraph_chain_steps (solid member present)).toSameOutline
  calc (chain shared).andThen (flatten hasDefaultExit (members.map remainder))
    SameOutline _ (.sequence (chain shared) (flatten hasDefaultExit (members.map remainder))) :=
      sameOutline_andThen sharedSolid (solid_flatten_of_ne_empty (solid_remainders solid))
    SameOutline _ (.sequence (chain shared) (.set (members.map remainder))) :=
      .sequence (.refl _) (sameOutline_flatten hasDefaultExit _)
    SameGraph _ (.set ((members.map remainder).map (.sequence (chain shared)))) := by
      apply sameGraph_sequence_set
      intro none
      exact inhabited (List.map_eq_nil_iff.mp none)
    SameOutline _ (.set (members.map id)) := by
      rw [List.map_map]
      exact SameOutline.set_map eachMember
    SameGraph _ (.set members) := by
      rw [List.map_id]
      exact .refl _

end SharedBeginning

/-! ### Shared endings -/

private theorem cutAt?_spec {node : NodeId} {expr : Expr} {cut : List Expr × List Expr}
    (found : cutAt? node expr = some cut) : expr.steps = cut.1 ++ cut.2 ∧ cut.2 ≠ [] := by
  simp only [cutAt?] at found
  split at found
  · cases found
  · rename_i occupied
    cases found
    exact ⟨List.takeWhile_append_dropWhile.symm, occupied⟩

private theorem mapM_cutAt?_spec {node : NodeId} {members : List Expr}
    {cuts : List (List Expr × List Expr)} (found : members.mapM (cutAt? node) = some cuts) :
    members.map steps = cuts.map (fun cut => cut.1 ++ cut.2) ∧ ∀ cut ∈ cuts, cut.2 ≠ [] := by
  induction members generalizing cuts with
  | nil =>
      simp only [List.mapM_nil] at found
      cases found
      exact ⟨rfl, fun cut impossible => nomatch impossible⟩
  | cons member members ih =>
      rw [List.mapM_cons] at found
      obtain ⟨cut, atMember, found⟩ := Option.bind_eq_some_iff.mp found
      obtain ⟨rest, atRest, found⟩ := Option.bind_eq_some_iff.mp found
      cases found
      have first := cutAt?_spec atMember
      have others := ih atRest
      constructor
      · rw [List.map_cons, List.map_cons, first.1, others.1]
      · intro other member
        rcases List.mem_cons.mp member with rfl | inRest
        · exact first.2
        · exact others.2 other inRest

private theorem foldl_longer_mem (lists : List (List Expr)) (best : List Expr) :
    lists.foldl (fun best steps => if best.length < steps.length then steps else best) best ∈
      best :: lists := by
  induction lists generalizing best with
  | nil => exact List.mem_cons_self
  | cons steps lists ih =>
      rw [List.foldl_cons]
      by_cases longer : best.length < steps.length
      · rw [if_pos longer]
        exact List.mem_cons_of_mem best (ih steps)
      · rw [if_neg longer]
        rcases List.mem_cons.mp (ih best) with same | inRest
        · rw [same]
          exact List.mem_cons_self
        · exact List.mem_cons_of_mem best (List.mem_cons_of_mem steps inRest)

theorem longest_mem {lists : List (List Expr)} (inhabited : lists ≠ []) :
    longest lists ∈ lists := by
  cases lists with
  | nil => exact absurd rfl inhabited
  | cons first rest => exact foldl_longer_mem rest first

/-- Members cut in two, each where it enters some node, so that every back is a
beginning of the tail and one back is the whole tail. -/
structure CutBefore (members : List Expr) (cuts : List (List Expr × List Expr))
    (tail : List Expr) : Prop where
  whole : members.map steps = cuts.map fun cut => cut.1 ++ cut.2
  entered : ∀ cut ∈ cuts, cut.2 ≠ []
  beginning : ∀ cut ∈ cuts, cut.2 <+: tail
  attained : ∃ cut ∈ cuts, cut.2 = tail

theorem cutBefore_longest {node : NodeId} {members : List Expr}
    {cuts : List (List Expr × List Expr)} (several : ¬ members.length < 2)
    (found : members.mapM (cutAt? node) = some cuts)
    (covered : ¬ (!cuts.all fun cut => cut.2.isPrefixOf (longest (cuts.map Prod.snd))) = true) :
    CutBefore members cuts (longest (cuts.map Prod.snd)) := by
  obtain ⟨whole, entered⟩ := mapM_cutAt?_spec found
  have inhabited : cuts.map Prod.snd ≠ [] := by
    intro none
    rw [List.map_eq_nil_iff.mp none, List.map_nil, List.map_eq_nil_iff] at whole
    rw [whole] at several
    exact several (by decide)
  exact ⟨whole, entered, by simpa using covered, List.mem_map.mp (longest_mem inhabited)⟩

/-- What a shared ending is: either the tail is put behind all fronts, or its first
step is left with the fronts and the rest is put behind them. -/
theorem shareEnding?_cases {node : NodeId} {members : List Expr} {expr : Expr}
    (formed : shareEnding? hasDefaultExit node members = some expr) :
    ∃ cuts tail, CutBefore members cuts tail ∧
      ((∀ cut ∈ cuts, cut.1 ≠ []) ∧
          joinBranches? hasDefaultExit (cuts.map fun cut => chain cut.1) tail = some expr ∨
        ∃ head next rest, tail = head :: next :: rest ∧
          joinBranches? hasDefaultExit (cuts.map fun cut => (chain cut.1).andThen head)
            (next :: rest) = some expr) := by
  unfold shareEnding? at formed
  split at formed
  · cases formed
  rename_i several
  split at formed
  · cases formed
  rename_i cuts found
  dsimp only at formed
  split at formed
  · cases formed
  split at formed
  · cases formed
  rename_i covered
  have cutBefore := cutBefore_longest several found covered
  generalize longest (cuts.map Prod.snd) = tail at formed cutBefore
  refine ⟨cuts, tail, cutBefore, ?_⟩
  split at formed
  · split at formed
    · rename_i head next rest
      exact Or.inr ⟨head, next, rest, rfl, formed⟩
    · cases formed
  · rename_i noneAtStart
    refine Or.inl ⟨?_, formed⟩
    intro cut member atStart
    apply noneAtStart
    rw [List.any_eq_true]
    exact ⟨cut, member, List.isEmpty_iff.mpr atStart⟩

theorem CutBefore.exists_mem_steps {members : List Expr} {cuts : List (List Expr × List Expr)}
    {tail : List Expr} (cutBefore : CutBefore members cuts tail) :
    ∀ cut ∈ cuts, ∀ step ∈ cut.1 ++ cut.2, ∃ member ∈ members, step ∈ member.steps := by
  intro cut inCuts step inCut
  have inMap := List.mem_map_of_mem (f := fun cut => cut.1 ++ cut.2) inCuts
  rw [← cutBefore.whole] at inMap
  obtain ⟨member, present, same⟩ := List.mem_map.mp inMap
  exact ⟨member, present, same ▸ inCut⟩

theorem CutBefore.exists_mem_steps_of_mem_tail {members : List Expr}
    {cuts : List (List Expr × List Expr)} {tail : List Expr}
    (cutBefore : CutBefore members cuts tail) :
    ∀ step ∈ tail, ∃ member ∈ members, step ∈ member.steps := by
  obtain ⟨cut, inCuts, rfl⟩ := cutBefore.attained
  intro step inTail
  exact cutBefore.exists_mem_steps cut inCuts step (List.mem_append_right cut.1 inTail)

theorem CutBefore.tail_ne_nil {members : List Expr} {cuts : List (List Expr × List Expr)}
    {tail : List Expr} (cutBefore : CutBefore members cuts tail) : tail ≠ [] := by
  obtain ⟨cut, inCuts, rfl⟩ := cutBefore.attained
  exact cutBefore.entered cut inCuts

private theorem CutBefore.solid {members : List Expr} {cuts : List (List Expr × List Expr)}
    {tail : List Expr} (cutBefore : CutBefore members cuts tail)
    (solid : ∀ member ∈ members, member.Solid) :
    ∀ cut ∈ cuts, ∀ step ∈ cut.1 ++ cut.2, step.Solid := by
  intro cut inCuts step inCut
  obtain ⟨member, present, inSteps⟩ := cutBefore.exists_mem_steps cut inCuts step inCut
  exact (solid member present).of_mem_steps step inSteps

private theorem CutBefore.solid_tail {members : List Expr} {cuts : List (List Expr × List Expr)}
    {tail : List Expr} (cutBefore : CutBefore members cuts tail)
    (solid : ∀ member ∈ members, member.Solid) : tail ≠ [] ∧ ∀ step ∈ tail, step.Solid := by
  refine ⟨cutBefore.tail_ne_nil, ?_⟩
  intro step inTail
  obtain ⟨member, present, inSteps⟩ := cutBefore.exists_mem_steps_of_mem_tail step inTail
  exact (solid member present).of_mem_steps step inSteps

private theorem mem_links_chain_overlap (link : Reference × Reference)
    (front back : List Expr) {middle : List Expr} (occupied : middle ≠ [])
    (solid : ∀ step ∈ front ++ (middle ++ back), step.Solid) :
    link ∈ (chain (front ++ (middle ++ back))).links ↔
      link ∈ (chain (front ++ middle)).links ∨ link ∈ (chain (middle ++ back)).links := by
  have ofMiddle : middle ++ back ≠ [] := List.append_ne_nil_of_left_ne_nil occupied back
  have solidLate : ∀ step ∈ middle ++ back, step.Solid := fun step member =>
    solid step (List.mem_append_right front member)
  have solidEarly : ∀ step ∈ front ++ middle, step.Solid := by
    intro step member
    rcases List.mem_append.mp member with inFront | inMiddle
    · exact solid step (List.mem_append_left _ inFront)
    · exact solidLate step (List.mem_append_left back inMiddle)
  have late := (sameOutline_chain_append occupied solidLate).links link
  rw [mem_links_sequence] at late
  by_cases none : front = []
  · subst none
    rw [List.nil_append, List.nil_append, late]
    constructor
    · exact Or.inr
    · intro found
      rcases found with inMiddle | inBoth
      · exact Or.inl inMiddle
      · exact inBoth
  · have early := (sameGraph_chain_append none occupied solidEarly).links link
    have all := (sameGraph_chain_append none ofMiddle solid).links link
    have sameHeads := (sameOutline_chain_append occupied solidLate).heads link.2
    rw [mem_links_sequence] at early all
    rw [all, early, sameHeads, heads_sequence]
    constructor
    · intro found
      rcases found with inFront | inLate | joint
      · exact Or.inl (Or.inl inFront)
      · exact Or.inr inLate
      · exact Or.inl (Or.inr (Or.inr joint))
    · intro found
      rcases found with (inFront | inMiddle | joint) | inLate
      · exact Or.inl inFront
      · exact Or.inr (Or.inl (late.mpr (Or.inl inMiddle)))
      · exact Or.inr (Or.inr joint)
      · exact Or.inr (Or.inl inLate)

private theorem CutBefore.sameGraph_chains {members : List Expr}
    {cuts : List (List Expr × List Expr)} {tail : List Expr}
    (cutBefore : CutBefore members cuts tail) (solid : ∀ member ∈ members, member.Solid) :
    SameGraph (.set (cuts.map fun cut => chain (cut.1 ++ cut.2))) (.set members) := by
  have eachMember : SameGraph (.set (members.map (chain ∘ steps))) (.set (members.map id)) :=
    SameGraph.set_map fun member present => sameGraph_chain_steps (solid member present)
  have sameChains := congrArg (List.map chain) cutBefore.whole
  rw [List.map_map, List.map_map] at sameChains
  rw [sameChains, List.map_id] at eachMember
  exact eachMember

private theorem CutBefore.sameOutline {members : List Expr}
    {cuts : List (List Expr × List Expr)} {tail : List Expr}
    (cutBefore : CutBefore members cuts tail) (solid : ∀ member ∈ members, member.Solid) :
    SameOutline (.set (cuts.map fun cut => chain (cut.1 ++ tail))) (.set members) := by
  refine SameOutline.trans ?_ (cutBefore.sameGraph_chains solid).toSameOutline
  obtain ⟨ofTail, tailSolid⟩ := cutBefore.solid_tail solid
  have longerSolid : ∀ cut ∈ cuts, ∀ step ∈ cut.1 ++ tail, step.Solid := by
    intro cut inCuts step member
    rcases List.mem_append.mp member with inFront | inTail
    · exact cutBefore.solid solid cut inCuts step (List.mem_append_left _ inFront)
    · exact tailSolid step inTail
  constructor
  · intro head
    rw [mem_heads_set_map, mem_heads_set_map]
    apply exists_congr
    intro cut
    apply and_congr_right
    intro inCuts
    obtain ⟨rest, same⟩ := cutBefore.beginning cut inCuts
    have allSolid := longerSolid cut inCuts
    rw [← same, ← List.append_assoc] at allSolid ⊢
    have occupied : cut.1 ++ cut.2 ≠ [] :=
      List.append_ne_nil_of_right_ne_nil cut.1 (cutBefore.entered cut inCuts)
    exact (sameOutline_chain_append occupied allSolid).heads head
  · intro link
    rw [mem_links_set_map, mem_links_set_map]
    constructor
    · intro found
      obtain ⟨cut, inCuts, inside⟩ := found
      obtain ⟨rest, same⟩ := cutBefore.beginning cut inCuts
      have allSolid := longerSolid cut inCuts
      rw [← same] at allSolid inside
      rcases (mem_links_chain_overlap link cut.1 rest (cutBefore.entered cut inCuts)
        allSolid).mp inside with early | late
      · exact ⟨cut, inCuts, early⟩
      · -- The member with the whole tail holds the links behind the cut.
        obtain ⟨longer, inLonger, sameTail⟩ := cutBefore.attained
        refine ⟨longer, inLonger, ?_⟩
        rw [same] at late
        have longerLinks := mem_links_chain_overlap link longer.1 [] ofTail
          (by rw [List.append_nil]; exact longerSolid longer inLonger)
        rw [List.append_nil] at longerLinks
        rw [sameTail]
        exact longerLinks.mpr (Or.inr late)
    · intro found
      obtain ⟨cut, inCuts, inside⟩ := found
      obtain ⟨rest, same⟩ := cutBefore.beginning cut inCuts
      have allSolid := longerSolid cut inCuts
      refine ⟨cut, inCuts, ?_⟩
      rw [← same] at allSolid ⊢
      exact (mem_links_chain_overlap link cut.1 rest (cutBefore.entered cut inCuts)
        allSolid).mpr (Or.inl inside)

private theorem sameGraph_joinBranches {branches continuation : List Expr} {expr : Expr}
    (inhabited : branches ≠ []) (ofBranches : ∀ branch ∈ branches, branch.Solid)
    (occupied : continuation ≠ []) (ofContinuation : ∀ step ∈ continuation, step.Solid)
    (formed : joinBranches? hasDefaultExit branches continuation = some expr) :
    expr.Solid ∧ SameGraph expr
      (.set (branches.map fun branch => .sequence branch (chain continuation))) := by
  obtain ⟨set, isSet, rfl⟩ := Option.map_eq_some_iff.mp formed
  have setSolid := solid_branching inhabited ofBranches isSet
  have chainSolid := solid_chain occupied ofContinuation
  refine ⟨setSolid.andThen chainSolid, ?_⟩
  calc set.andThen (chain continuation)
    SameGraph _ (.sequence set (chain continuation)) := sameGraph_andThen setSolid chainSolid
    SameGraph _ (.sequence (.set branches) (chain continuation)) :=
      (sameGraph_branching isSet).sequence (.refl _)
    SameGraph _ (.set (branches.map fun branch => .sequence branch (chain continuation))) :=
      sameGraph_set_sequence _ inhabited

private theorem CutBefore.sameOutline_joinBranches {members : List Expr}
    {cuts : List (List Expr × List Expr)} {tail : List Expr} {expr : Expr}
    (cutBefore : CutBefore members cuts tail) (solid : ∀ member ∈ members, member.Solid)
    (front : List Expr × List Expr → List Expr) (continuation : List Expr)
    (ofFront : ∀ cut ∈ cuts, front cut ≠ [])
    (moved : ∀ cut ∈ cuts, front cut ++ continuation = cut.1 ++ tail)
    (occupied : continuation ≠ [])
    (formed : joinBranches? hasDefaultExit (cuts.map fun cut => chain (front cut)) continuation =
      some expr) : expr.Solid ∧ SameOutline expr (.set members) := by
  obtain ⟨_, tailSolid⟩ := cutBefore.solid_tail solid
  have allSolid : ∀ cut ∈ cuts, ∀ step ∈ front cut ++ continuation, step.Solid := by
    intro cut inCuts step member
    rw [moved cut inCuts] at member
    rcases List.mem_append.mp member with inFront | inTail
    · exact cutBefore.solid solid cut inCuts step (List.mem_append_left _ inFront)
    · exact tailSolid step inTail
  obtain ⟨some, inCuts, _⟩ := cutBefore.attained
  obtain ⟨exprSolid, joined⟩ := sameGraph_joinBranches
    (List.ne_nil_of_mem (List.mem_map_of_mem inCuts))
    (by
      intro branch image
      obtain ⟨cut, inCuts, rfl⟩ := List.mem_map.mp image
      exact solid_chain (ofFront cut inCuts) fun step member =>
        allSolid cut inCuts step (List.mem_append_left continuation member))
    occupied
    (fun step member => allSolid some inCuts step (List.mem_append_right _ member))
    formed
  refine ⟨exprSolid, ?_⟩
  rw [List.map_map] at joined
  calc expr
    SameGraph _ (.set (cuts.map fun cut => .sequence (chain (front cut)) (chain continuation))) :=
      joined
    SameGraph _ (.set (cuts.map fun cut => chain (cut.1 ++ tail))) := by
      apply SameGraph.set_map
      intro cut inCuts
      rw [← moved cut inCuts]
      exact (sameGraph_chain_append (ofFront cut inCuts) occupied (allSolid cut inCuts)).symm
    SameOutline _ (.set members) := cutBefore.sameOutline solid

/-- Taking a shared ending out of a set keeps its heads and its links. -/
theorem solid_and_sameOutline_shareEnding {node : NodeId} {members : List Expr} {expr : Expr}
    (solid : ∀ member ∈ members, member.Solid)
    (formed : shareEnding? hasDefaultExit node members = some expr) :
    expr.Solid ∧ SameOutline expr (.set members) := by
  obtain ⟨cuts, tail, cutBefore, ⟨ofFronts, join⟩ | ⟨head, next, rest, tailIs, hop⟩⟩ :=
    shareEnding?_cases formed
  · exact cutBefore.sameOutline_joinBranches solid Prod.fst tail ofFronts (fun _ _ => rfl)
      (cutBefore.solid_tail solid).1 join
  · have withHead : ∀ steps : List Expr, (chain steps).andThen head = chain (steps ++ [head]) := by
      intro steps
      rw [chain_append, chain_cons, chain_nil, andThen_empty]
    simp only [withHead] at hop
    apply cutBefore.sameOutline_joinBranches solid (fun cut => cut.1 ++ [head]) (next :: rest)
    · intro cut _
      exact List.append_ne_nil_of_right_ne_nil _ (List.cons_ne_nil head [])
    · intro cut _
      rw [tailIs, List.append_assoc]
      rfl
    · exact List.cons_ne_nil next rest
    · exact hop

end FlowGraph.Expr
