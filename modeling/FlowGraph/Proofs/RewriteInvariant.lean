import FlowGraph.Proofs.Folding

/-!
Properties of expressions that every rewrite keeps, and with them folding. Folding takes
expressions apart into operands, members and steps and puts pieces together again in
three ways only: one behind the other, as a flat set, and as a set of branches. A property
that passes to the pieces and survives these three survives the folding of an edge whose
ends have it as leaves.
-/

namespace FlowGraph

open FlowGraph.Expr

/-- A property of solid expressions that passes to their pieces and to what is put
together from pieces. -/
structure RewriteInvariant (hasDefaultExit : NodeId → Bool) (holds : Expr → Prop) : Prop where
  solid : ∀ {expr}, holds expr → expr.Solid
  operands : ∀ {first second}, holds (.sequence first second) → holds first ∧ holds second
  members : ∀ {members}, holds (.set members) → ∀ member ∈ members, holds member
  andThen : ∀ {first second}, holds first → holds second → holds (first.andThen second)
  /-- Empty members leave no trace in a flat set. -/
  flatten : ∀ {members}, (∀ member ∈ members, member ≠ .empty → holds member) →
    flatten hasDefaultExit members ≠ .empty → holds (flatten hasDefaultExit members)
  branching : ∀ {members set}, members ≠ [] → (∀ member ∈ members, holds member) →
    branching? hasDefaultExit members = some set → holds set

namespace RewriteInvariant

variable {hasDefaultExit : NodeId → Bool} {holds : Expr → Prop}

/-! ### Steps and chains -/

theorem of_mem_steps (invariant : RewriteInvariant hasDefaultExit holds) {expr : Expr}
    (held : holds expr) : ∀ step ∈ expr.steps, holds step := by
  induction expr with
  | empty => exact nofun
  | sequence first second ihFirst ihSecond =>
      obtain ⟨ofFirst, ofSecond⟩ := invariant.operands held
      intro step member
      rcases List.mem_append.mp member with inFirst | inSecond
      · exact ihFirst ofFirst step inFirst
      · exact ihSecond ofSecond step inSecond
  | _ =>
      intro step member
      rw [List.mem_singleton.mp member]
      exact held

theorem chain (invariant : RewriteInvariant hasDefaultExit holds) {steps : List Expr}
    (occupied : steps ≠ []) (held : ∀ step ∈ steps, holds step) : holds (Expr.chain steps) := by
  induction steps with
  | nil => exact absurd rfl occupied
  | cons step steps ih =>
      have ofStep := held step List.mem_cons_self
      rw [chain_cons]
      by_cases last : steps = []
      · rw [last]
        exact ofStep
      · exact invariant.andThen ofStep (ih last fun other inRest =>
          held other (List.mem_cons_of_mem step inRest))

theorem chain_drop (invariant : RewriteInvariant hasDefaultExit holds) {expr : Expr}
    (held : holds expr) {count : Nat} (occupied : Expr.chain (expr.steps.drop count) ≠ .empty) :
    holds (Expr.chain (expr.steps.drop count)) := by
  apply invariant.chain
  · intro none
    rw [none] at occupied
    exact occupied rfl
  · intro step inRest
    exact invariant.of_mem_steps held step (List.mem_of_mem_drop inRest)

theorem flatten_of_ne_nil (invariant : RewriteInvariant hasDefaultExit holds)
    {members : List Expr} (inhabited : members ≠ []) (held : ∀ member ∈ members, holds member) :
    holds (Expr.flatten hasDefaultExit members) := by
  have solid : (Expr.flatten hasDefaultExit members).Solid :=
    solid_flatten inhabited fun member present => invariant.solid (held member present)
  exact invariant.flatten (fun member present _ => held member present) solid.ne_empty

theorem flatten_pair (invariant : RewriteInvariant hasDefaultExit holds) {first second : Expr}
    (ofFirst : holds first) (ofSecond : holds second) :
    holds (Expr.flatten hasDefaultExit [first, second]) := by
  apply invariant.flatten_of_ne_nil (List.cons_ne_nil _ _)
  intro member present
  rcases List.mem_cons.mp present with rfl | last
  · exact ofFirst
  · rw [List.mem_singleton.mp last]
    exact ofSecond

/-! ### Shared parts -/

private theorem shareBeginning (invariant : RewriteInvariant hasDefaultExit holds)
    {members : List Expr} {expr : Expr} (held : ∀ member ∈ members, holds member)
    (formed : shareBeginning? hasDefaultExit members = some expr) : holds expr := by
  obtain ⟨inhabited, shared, occupied, split, rfl⟩ := shareBeginning?_cases formed
  have ofShared : holds (Expr.chain shared) := by
    obtain ⟨member, present⟩ := List.exists_mem_of_ne_nil members inhabited
    apply invariant.chain occupied
    intro step inShared
    apply invariant.of_mem_steps (held member present)
    rw [split member present]
    exact List.mem_append_left _ inShared
  have ofRemainders : ∀ remainder ∈ members.map fun member =>
      Expr.chain (member.steps.drop shared.length), remainder ≠ .empty → holds remainder := by
    intro remainder image present
    obtain ⟨member, inMembers, rfl⟩ := List.mem_map.mp image
    exact invariant.chain_drop (held member inMembers) present
  by_cases vacant : Expr.flatten hasDefaultExit
      (members.map fun member => Expr.chain (member.steps.drop shared.length)) = .empty
  · rw [vacant]
    exact ofShared
  · exact invariant.andThen ofShared (invariant.flatten ofRemainders vacant)

private theorem joinBranches (invariant : RewriteInvariant hasDefaultExit holds)
    {branches continuation : List Expr} {expr : Expr} (inhabited : branches ≠ [])
    (ofBranches : ∀ branch ∈ branches, holds branch) (occupied : continuation ≠ [])
    (ofContinuation : ∀ step ∈ continuation, holds step)
    (formed : joinBranches? hasDefaultExit branches continuation = some expr) : holds expr := by
  obtain ⟨set, isSet, rfl⟩ := Option.map_eq_some_iff.mp formed
  exact invariant.andThen (invariant.branching inhabited ofBranches isSet)
    (invariant.chain occupied ofContinuation)

section Cuts

variable {members : List Expr} {cuts : List (List Expr × List Expr)} {tail : List Expr}

private theorem of_mem_tail (invariant : RewriteInvariant hasDefaultExit holds)
    (held : ∀ member ∈ members, holds member) (cutBefore : CutBefore members cuts tail) :
    ∀ step ∈ tail, holds step := by
  intro step inTail
  obtain ⟨member, present, inSteps⟩ := cutBefore.exists_mem_steps_of_mem_tail step inTail
  exact invariant.of_mem_steps (held member present) step inSteps

private theorem chain_front (invariant : RewriteInvariant hasDefaultExit holds)
    (held : ∀ member ∈ members, holds member) (cutBefore : CutBefore members cuts tail)
    {cut : List Expr × List Expr} (inCuts : cut ∈ cuts) (occupied : cut.1 ≠ []) :
    holds (Expr.chain cut.1) := by
  apply invariant.chain occupied
  intro step inFront
  obtain ⟨member, present, inSteps⟩ := cutBefore.exists_mem_steps cut inCuts step
    (List.mem_append_left cut.2 inFront)
  exact invariant.of_mem_steps (held member present) step inSteps

theorem fronts (invariant : RewriteInvariant hasDefaultExit holds)
    (held : ∀ member ∈ members, holds member) (cutBefore : CutBefore members cuts tail)
    (occupied : ∀ cut ∈ cuts, cut.1 ≠ []) :
    ∀ branch ∈ cuts.map fun cut => Expr.chain cut.1, holds branch := by
  intro branch image
  obtain ⟨cut, inCuts, rfl⟩ := List.mem_map.mp image
  exact invariant.chain_front held cutBefore inCuts (occupied cut inCuts)

/-- The front is empty for a member that begins at the node. -/
theorem hops (invariant : RewriteInvariant hasDefaultExit holds)
    (held : ∀ member ∈ members, holds member) (cutBefore : CutBefore members cuts tail)
    {head : Expr} (isHead : head ∈ tail) :
    ∀ branch ∈ cuts.map fun cut => (Expr.chain cut.1).andThen head, holds branch := by
  intro branch image
  obtain ⟨cut, inCuts, rfl⟩ := List.mem_map.mp image
  have ofHead := invariant.of_mem_tail held cutBefore head isHead
  by_cases atStart : cut.1 = []
  · rw [atStart, chain_nil, empty_andThen]
    exact ofHead
  · exact invariant.andThen (invariant.chain_front held cutBefore inCuts atStart) ofHead

end Cuts

private theorem shareEnding (invariant : RewriteInvariant hasDefaultExit holds) {node : NodeId}
    {members : List Expr} {expr : Expr} (held : ∀ member ∈ members, holds member)
    (formed : shareEnding? hasDefaultExit node members = some expr) : holds expr := by
  obtain ⟨cuts, tail, cutBefore, join⟩ := shareEnding?_cases formed
  have ofTail := invariant.of_mem_tail held cutBefore
  obtain ⟨some, inCuts, _⟩ := cutBefore.attained
  rcases join with ⟨ofFronts, join⟩ | ⟨head, next, rest, rfl, hop⟩
  · exact invariant.joinBranches (List.ne_nil_of_mem (List.mem_map_of_mem inCuts))
      (invariant.fronts held cutBefore ofFronts) cutBefore.tail_ne_nil ofTail join
  · exact invariant.joinBranches (List.ne_nil_of_mem (List.mem_map_of_mem inCuts))
      (invariant.hops held cutBefore List.mem_cons_self) (List.cons_ne_nil next rest)
      (fun step inRest => ofTail step (List.mem_cons_of_mem head inRest)) hop

/-! ### Longer tails -/

section Folding

variable {source : Option Reference} {target : NodeId}

theorem link (invariant : RewriteInvariant hasDefaultExit holds) (ofTarget : holds (.node target))
    {leaving : Reference} (ofLeaving : holds (ofReference leaving)) :
    holds (Expr.link leaving target) :=
  invariant.andThen ofLeaving ofTarget

private theorem continueLeaf (invariant : RewriteInvariant hasDefaultExit holds)
    (ofTarget : holds (.node target)) {leaving : Reference}
    (ofLeaving : holds (ofReference leaving)) {leaf : Expr} (held : holds leaf) :
    holds (Expr.continueLeaf hasDefaultExit leaf leaving target) := by
  unfold Expr.continueLeaf
  split
  · exact invariant.link ofTarget ofLeaving
  · split
    · exact invariant.flatten_pair held (invariant.link ofTarget ofLeaving)
    · exact invariant.andThen held ofTarget

theorem continueFrom (invariant : RewriteInvariant hasDefaultExit holds)
    (ofTarget : holds (.node target)) {leaving : Reference}
    (ofLeaving : holds (ofReference leaving)) {expr : Expr} (held : holds expr) :
    holds (expr.continueFrom hasDefaultExit leaving target) := by
  induction expr with
  | sequence first second _ ihSecond =>
      obtain ⟨ofFirst, ofSecond⟩ := invariant.operands held
      rw [Expr.continueFrom]
      exact invariant.andThen ofFirst (ihSecond ofSecond)
  | set members ih =>
      rw [Expr.continueFrom, continueMembers_eq_map]
      apply invariant.flatten_of_ne_nil
      · cases invariant.solid held with
        | set inhabited _ => exact fun none => inhabited (List.map_eq_nil_iff.mp none)
      · intro new image
        obtain ⟨member, present, rfl⟩ := List.mem_map.mp image
        have ofMember := invariant.members held member present
        rw [continueMember]
        split
        · exact ih member present ofMember
        · exact ofMember
  | _ => exact invariant.continueLeaf ofTarget ofLeaving held

/-! ### Folding -/

variable {surroundings : Surroundings}

private theorem foldAtLeaf (invariant : RewriteInvariant surroundings.hasDefaultExit holds)
    (ofTarget : holds (.node target))
    (ofSource : ∀ leaving, source = some leaving → holds (ofReference leaving))
    (leaf : Reference) {anchor : Anchor} {folded : Expr} (held : holds (ofReference leaf))
    (found : surroundings.foldAtLeaf leaf source target anchor = some folded) : holds folded := by
  have atAnchor : ∀ {other : Expr}, (if anchor.admits source then
      some (Expr.flatten surroundings.hasDefaultExit [ofReference leaf, .node target])
      else none) = some other → holds other := by
    intro other beside
    obtain ⟨_, same⟩ := Option.ite_none_right_eq_some.mp beside
    rw [← Option.some.inj same]
    exact invariant.flatten_pair held ofTarget
  cases source with
  | none => exact atAnchor found
  | some leaving =>
      have ofLink := invariant.link ofTarget (ofSource leaving rfl)
      by_cases sameOwner : leaf.owner = leaving.owner
      · rcases Surroundings.foldAtLeaf_of_sameOwner surroundings target anchor sameOwner with
          follows | branches
        · rw [follows] at found
          cases found
          exact ofLink
        · rw [branches] at found
          cases found
          exact invariant.flatten_pair held ofLink
      · rw [Surroundings.foldAtLeaf_of_otherOwner anchor sameOwner] at found
        exact atAnchor found

theorem compact (invariant : RewriteInvariant surroundings.hasDefaultExit holds) (merge : NodeId)
    {expr : Expr} (held : holds expr) : holds (surroundings.compact merge expr) := by
  cases expr with
  | set members =>
      have ofMembers := invariant.members held
      unfold Surroundings.compact
      dsimp only
      cases begun : shareBeginning? surroundings.hasDefaultExit members with
      | some shared => exact invariant.shareBeginning ofMembers begun
      | none =>
          cases ended : shareEnding? surroundings.hasDefaultExit merge members with
          | some shared => exact invariant.shareEnding ofMembers ended
          | none => exact held
  | _ => exact held

theorem compactSet (invariant : RewriteInvariant surroundings.hasDefaultExit holds)
    (merge : NodeId) {members : List Expr} (inhabited : members ≠ [])
    (held : ∀ member ∈ members, holds member) : holds (surroundings.compactSet merge members) :=
  invariant.compact merge (invariant.flatten_of_ne_nil inhabited held)

private theorem joinFirst (invariant : RewriteInvariant surroundings.hasDefaultExit holds)
    {first second newFirst : Expr} (ofFirst : holds first) (ofSecond : holds second)
    (ofNew : holds newFirst) : holds (surroundings.joinFirst first second newFirst) := by
  have combined := invariant.flatten_pair (invariant.andThen ofFirst ofSecond) ofNew
  unfold Surroundings.joinFirst
  dsimp only
  split
  · rename_i members isSet
    rw [isSet] at combined ⊢
    have ofMembers := invariant.members combined
    split
    · rename_i shared begun
      exact invariant.shareBeginning ofMembers begun
    · split
      · rename_i merge _
        cases ended : shareEnding? surroundings.hasDefaultExit merge members with
        | none => exact combined
        | some shared => exact invariant.shareEnding ofMembers ended
      · exact combined
  · exact combined

theorem membersWithCycle (invariant : RewriteInvariant surroundings.hasDefaultExit holds)
    (ofTarget : holds (.node target)) {leaving : Reference}
    (ofLeaving : holds (ofReference leaving)) {members newMembers : List Expr} {anywhere : Bool}
    (held : ∀ member ∈ members, holds member)
    (closed : surroundings.membersWithCycle? members leaving target anywhere = some newMembers) :
    newMembers ≠ [] ∧ ∀ new ∈ newMembers, holds new := by
  obtain ⟨_, ⟨_, _, rfl⟩ | ⟨front, member, back, rfl, _, rfl⟩⟩ :=
    Surroundings.membersWithCycle?_cases closed
  · refine ⟨List.append_ne_nil_of_right_ne_nil _ (List.cons_ne_nil _ _), ?_⟩
    intro new present
    rcases List.mem_append.mp present with old | last
    · exact held new old
    · rw [List.mem_singleton.mp last]
      exact invariant.link ofTarget ofLeaving
  · refine ⟨List.append_ne_nil_of_right_ne_nil _ (List.cons_ne_nil _ _), ?_⟩
    intro new present
    rcases List.mem_append.mp present with inFront | inRest
    · exact held new (List.mem_append_left _ inFront)
    · rcases List.mem_cons.mp inRest with rfl | inBack
      · exact invariant.continueFrom ofTarget ofLeaving
          (held member (List.mem_append_right front List.mem_cons_self))
      · exact held new (List.mem_append_right front (List.mem_cons_of_mem member inBack))

private theorem foldCycle (invariant : RewriteInvariant surroundings.hasDefaultExit holds)
    (ofTarget : holds (.node target))
    (ofSource : ∀ leaving, source = some leaving → holds (ofReference leaving))
    {members : List Expr} {anywhere : Bool} {folded : Expr}
    (held : ∀ member ∈ members, holds member)
    (found : surroundings.foldCycle? members source target anywhere = some folded) :
    holds folded := by
  obtain ⟨leaving, newMembers, isSource, closed, rfl⟩ := Surroundings.foldCycle?_cases found
  obtain ⟨inhabited, ofNew⟩ :=
    invariant.membersWithCycle ofTarget (ofSource leaving isSource) held closed
  exact invariant.flatten_of_ne_nil inhabited ofNew

theorem mergeWhere (invariant : RewriteInvariant hasDefaultExit holds)
    (ofTarget : holds (.node target)) {members : List Expr} {test : Expr → Bool} {branches : Expr}
    (held : ∀ member ∈ members, holds member) (several : members.filter test ≠ [])
    (formed : branching? hasDefaultExit (members.filter test) = some branches) :
    Surroundings.mergeWhere test (branches.andThen (.node target)) members ≠ [] ∧
      ∀ new ∈ Surroundings.mergeWhere test (branches.andThen (.node target)) members,
        holds new := by
  have ofBranches := invariant.branching several
    (fun member ending => held member (List.mem_filter.mp ending).1) formed
  obtain ⟨ending, isEnding⟩ := List.exists_mem_of_ne_nil _ several
  constructor
  · exact List.ne_nil_of_mem (Surroundings.mem_mergeWhere.mpr
      (Or.inl ⟨rfl, ending, List.mem_filter.mp isEnding⟩))
  · intro new present
    rcases Surroundings.mem_mergeWhere.mp present with ⟨rfl, _⟩ | ⟨inMembers, _⟩
    · exact invariant.andThen ofBranches ofTarget
    · exact held new inMembers

private theorem foldAtSharedEnd (invariant : RewriteInvariant surroundings.hasDefaultExit holds)
    (ofTarget : holds (.node target)) {members : List Expr} {folded : Expr}
    (held : ∀ member ∈ members, holds member)
    (found : surroundings.foldAtSharedEnd? members source target = some folded) :
    holds folded := by
  obtain ⟨node, branches, _, several, formed, rfl⟩ := Surroundings.foldAtSharedEnd?_cases found
  obtain ⟨inhabited, ofNew⟩ := invariant.mergeWhere ofTarget held several formed
  exact invariant.compactSet target inhabited ofNew

theorem forall_withBestFold {fold : Expr → Option Expr} {members newMembers : List Expr}
    (held : ∀ member ∈ members, holds member)
    (ofFolds : ∀ member ∈ members, ∀ folded, fold member = some folded → holds folded)
    (found : Surroundings.withBestFold? members (members.map fold) = some newMembers) :
    newMembers ≠ [] ∧ ∀ new ∈ newMembers, holds new := by
  obtain ⟨front, member, back, folded, rfl, taken, rfl⟩ := Surroundings.withBestFold?_cases found
  refine ⟨List.append_ne_nil_of_right_ne_nil _ (List.cons_ne_nil _ _), ?_⟩
  intro new present
  rcases List.mem_append.mp present with inFront | inRest
  · exact held new (List.mem_append_left _ inFront)
  · rcases List.mem_cons.mp inRest with rfl | inBack
    · exact ofFolds member (List.mem_append_right front List.mem_cons_self) new taken
    · exact held new (List.mem_append_right front (List.mem_cons_of_mem member inBack))

theorem forall_append_target (ofTarget : holds (.node target)) {members : List Expr}
    (held : ∀ member ∈ members, holds member) : ∀ new ∈ members ++ [.node target], holds new := by
  intro new present
  rcases List.mem_append.mp present with old | last
  · exact held new old
  · rw [List.mem_singleton.mp last]
    exact ofTarget

/-- Folding keeps the property if the ends of the edge have it as leaves. -/
theorem fold (invariant : RewriteInvariant surroundings.hasDefaultExit holds)
    (ofTarget : holds (.node target))
    (ofSource : ∀ leaving, source = some leaving → holds (ofReference leaving))
    {expr folded : Expr} {anchor : Anchor} (held : holds expr)
    (found : surroundings.fold source target anchor expr = some folded) : holds folded := by
  induction expr generalizing anchor folded with
  | empty => exact absurd rfl (invariant.solid held).ne_empty
  | node nodeId => exact invariant.foldAtLeaf ofTarget ofSource (.node nodeId) held found
  | port nodeId portId =>
      exact invariant.foldAtLeaf ofTarget ofSource (.port nodeId portId) held found
  | trigger triggerId =>
      exact invariant.foldAtLeaf ofTarget ofSource (.trigger triggerId) held found
  | sequence first second ihFirst ihSecond =>
      obtain ⟨ofFirst, ofSecond⟩ := invariant.operands held
      rw [Surroundings.fold_sequence] at found
      cases atFirst : surroundings.fold source target anchor first with
      | some newFirst =>
          rw [atFirst] at found
          cases found
          exact invariant.joinFirst ofFirst ofSecond (ihFirst ofFirst atFirst)
      | none =>
          rw [atFirst] at found
          obtain ⟨newSecond, atSecond, rfl⟩ := Option.map_eq_some_iff.mp found
          exact invariant.andThen ofFirst (ihSecond ofSecond atSecond)
  | set members ih =>
      have ofMembers := invariant.members held
      rw [Surroundings.fold_set] at found
      simp only [Option.or_eq_some_iff] at found
      rcases found with cycle | ⟨_, ending | ⟨_, best | ⟨_, beside | ⟨_, cycle⟩⟩⟩⟩
      · exact invariant.foldCycle ofTarget ofSource ofMembers cycle
      · exact invariant.foldAtSharedEnd ofTarget ofMembers ending
      · obtain ⟨newMembers, replaced, rfl⟩ := Option.map_eq_some_iff.mp best
        obtain ⟨inhabited, ofNew⟩ := forall_withBestFold ofMembers
          (fun member present _ taken => ih member present (ofMembers member present) taken)
          replaced
        exact invariant.compactSet target inhabited ofNew
      · obtain ⟨_, same⟩ := Option.ite_none_right_eq_some.mp beside
        rw [← Option.some.inj same]
        exact invariant.compactSet target
          (List.append_ne_nil_of_right_ne_nil _ (List.cons_ne_nil _ _))
          (forall_append_target ofTarget ofMembers)
      · exact invariant.foldCycle ofTarget ofSource ofMembers cycle

end Folding

end RewriteInvariant

end FlowGraph
