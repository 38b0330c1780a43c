import FlowGraph.Proofs.RewriteInvariant

/-!
What rewrites and folding ask about the nodes around them. Two answers to which nodes have a
default exit lead to the same rewrites if they put the same flat sets together, and folding
asks for links only from the target of an edge back to the node that it leaves.
-/

namespace FlowGraph

open FlowGraph.Expr

/-- A property that rewrites keep, and for expressions with which two answers make no
difference to flat sets. -/
structure RewriteAgreement (hasDefaultExit other : NodeId → Bool) (holds : Expr → Prop) : Prop
    extends RewriteInvariant hasDefaultExit holds where
  flatten_eq : ∀ {members}, (∀ member ∈ members, member ≠ .empty → holds member) →
    Expr.flatten hasDefaultExit members = Expr.flatten other members
  branching_eq : ∀ {members}, (∀ member ∈ members, holds member) →
    branching? hasDefaultExit members = branching? other members

private theorem Surroundings.changeFirst?_congr {test : Expr → Bool} {change other : Expr → Expr}
    {members : List Expr} (same : ∀ member ∈ members, change member = other member) :
    changeFirst? test change members = changeFirst? test other members := by
  induction members with
  | nil => rfl
  | cons member members ih =>
      rw [changeFirst?, changeFirst?, same member List.mem_cons_self,
        ih fun later inRest => same later (List.mem_cons_of_mem member inRest)]

namespace RewriteAgreement

variable {hasDefaultExit other : NodeId → Bool} {holds : Expr → Prop}
  (agree : RewriteAgreement hasDefaultExit other holds)
include agree

/-! ### Flat sets and shared parts -/

private theorem flatten_eq_of_forall {members : List Expr}
    (held : ∀ member ∈ members, holds member) :
    Expr.flatten hasDefaultExit members = Expr.flatten other members :=
  agree.flatten_eq fun member present _ => held member present

private theorem flatten_pair_eq {first second : Expr} (ofFirst : holds first)
    (ofSecond : holds second) :
    Expr.flatten hasDefaultExit [first, second] = Expr.flatten other [first, second] := by
  apply agree.flatten_eq_of_forall
  intro member present
  rcases List.mem_cons.mp present with rfl | last
  · exact ofFirst
  · rw [List.mem_singleton.mp last]
    exact ofSecond

private theorem shareBeginning_eq {members : List Expr} (held : ∀ member ∈ members, holds member) :
    shareBeginning? hasDefaultExit members = shareBeginning? other members := by
  unfold shareBeginning?
  refine ite_congr rfl (fun _ => rfl) fun _ => ?_
  dsimp only
  refine ite_congr rfl (fun _ => rfl) fun _ => ?_
  rw [List.map_map, agree.flatten_eq]
  intro remainder image occupied
  obtain ⟨member, present, rfl⟩ := List.mem_map.mp image
  exact agree.chain_drop (held member present) occupied

private theorem joinBranches_eq {branches : List Expr} (continuation : List Expr)
    (held : ∀ branch ∈ branches, holds branch) :
    joinBranches? hasDefaultExit branches continuation =
      joinBranches? other branches continuation := by
  rw [joinBranches?, joinBranches?, agree.branching_eq held]

private theorem shareEnding_eq (node : NodeId) {members : List Expr}
    (held : ∀ member ∈ members, holds member) :
    shareEnding? hasDefaultExit node members = shareEnding? other node members := by
  unfold shareEnding?
  refine ite_congr rfl (fun _ => rfl) fun several => ?_
  cases found : members.mapM (cutAt? node) with
  | none => rfl
  | some cuts =>
      dsimp only
      refine ite_congr rfl (fun _ => rfl) fun _ => ?_
      refine ite_congr rfl (fun _ => rfl) fun covered => ?_
      have cutBefore := cutBefore_longest several found covered
      generalize longest (cuts.map Prod.snd) = tail at cutBefore
      refine ite_congr rfl (fun _ => ?_) fun noneAtStart => ?_
      · match tail, cutBefore with
        | [], _ => rfl
        | [_], _ => rfl
        | head :: next :: rest, cutBefore =>
            exact agree.joinBranches_eq _ (agree.hops held cutBefore List.mem_cons_self)
      · apply agree.joinBranches_eq
        apply agree.fronts held cutBefore
        intro cut inCuts atStart
        exact noneAtStart (List.any_eq_true.mpr ⟨cut, inCuts, List.isEmpty_iff.mpr atStart⟩)

/-! ### Longer tails -/

section Folding

variable {source : Option Reference} {target : NodeId} (ofTarget : holds (.node target))
include ofTarget

private theorem continueLeaf_eq {leaving : Reference} (ofLeaving : holds (ofReference leaving))
    {leaf : Expr} (held : holds leaf) :
    continueLeaf hasDefaultExit leaf leaving target = continueLeaf other leaf leaving target := by
  rw [continueLeaf, continueLeaf,
    agree.flatten_pair_eq held (agree.link ofTarget ofLeaving)]

private theorem continueFrom_eq {leaving : Reference} (ofLeaving : holds (ofReference leaving))
    {expr : Expr} (held : holds expr) :
    expr.continueFrom hasDefaultExit leaving target = expr.continueFrom other leaving target := by
  induction expr with
  | sequence first second _ ihSecond =>
      rw [Expr.continueFrom, Expr.continueFrom, ihSecond (agree.operands held).2]
  | set members ih =>
      have ofMembers := agree.members held
      have sameMembers : members.map (continueMember hasDefaultExit leaving target) =
          members.map (continueMember other leaving target) := by
        apply List.map_congr_left
        intro member present
        rw [continueMember, continueMember, ih member present (ofMembers member present)]
      rw [Expr.continueFrom, Expr.continueFrom, continueMembers_eq_map, continueMembers_eq_map,
        ← sameMembers]
      apply agree.flatten_eq_of_forall
      intro new image
      obtain ⟨member, present, rfl⟩ := List.mem_map.mp image
      rw [continueMember]
      split
      · exact agree.continueFrom ofTarget ofLeaving (ofMembers member present)
      · exact ofMembers member present
  | _ => exact agree.continueLeaf_eq ofTarget ofLeaving held

/-! ### Folding -/

variable {hasLink : NodeId → NodeId → Bool}

private theorem foldAtLeaf_eq (ofSource : ∀ leaving, source = some leaving →
      holds (ofReference leaving)) (leaf : Reference) (anchor : Anchor)
    (held : holds (ofReference leaf)) :
    Surroundings.foldAtLeaf ⟨hasDefaultExit, hasLink⟩ leaf source target anchor =
      Surroundings.foldAtLeaf ⟨other, hasLink⟩ leaf source target anchor := by
  have sameBeside := agree.flatten_pair_eq held ofTarget
  cases source with
  | none => simp only [Surroundings.foldAtLeaf, sameBeside]
  | some leaving =>
      have sameBranch := agree.flatten_pair_eq held (agree.link ofTarget (ofSource leaving rfl))
      simp only [Surroundings.foldAtLeaf, sameBeside, sameBranch]

omit ofTarget in
private theorem compactSet_eq {members : List Expr} (inhabited : members ≠ [])
    (held : ∀ member ∈ members, holds member) :
    Surroundings.compactSet ⟨hasDefaultExit, hasLink⟩ target members =
      Surroundings.compactSet ⟨other, hasLink⟩ target members := by
  have combined := agree.flatten_of_ne_nil inhabited held
  rw [Surroundings.compactSet, Surroundings.compactSet, ← agree.flatten_eq_of_forall held]
  cases flat : Expr.flatten hasDefaultExit members with
  | set pieces =>
      have ofPieces := agree.members (flat ▸ combined)
      rw [Surroundings.compact, Surroundings.compact, agree.shareBeginning_eq ofPieces,
        agree.shareEnding_eq target ofPieces]
  | _ => rfl

omit ofTarget in
private theorem joinFirst_eq {first second newFirst : Expr} (ofFirst : holds first)
    (ofSecond : holds second) (ofNew : holds newFirst) :
    Surroundings.joinFirst ⟨hasDefaultExit, hasLink⟩ first second newFirst =
      Surroundings.joinFirst ⟨other, hasLink⟩ first second newFirst := by
  have whole := agree.andThen ofFirst ofSecond
  have combined := agree.flatten_pair whole ofNew
  rw [Surroundings.joinFirst, Surroundings.joinFirst, ← agree.flatten_pair_eq whole ofNew]
  cases flat : Expr.flatten hasDefaultExit [first.andThen second, newFirst] with
  | set pieces =>
      have ofPieces := agree.members (flat ▸ combined)
      simp only [agree.shareBeginning_eq ofPieces, agree.shareEnding_eq _ ofPieces]
  | _ => rfl

private theorem membersWithCycle_eq {leaving : Reference}
    (ofLeaving : holds (ofReference leaving)) {members : List Expr} (anywhere : Bool)
    (held : ∀ member ∈ members, holds member) :
    Surroundings.membersWithCycle? ⟨hasDefaultExit, hasLink⟩ members leaving target anywhere =
      Surroundings.membersWithCycle? ⟨other, hasLink⟩ members leaving target anywhere := by
  unfold Surroundings.membersWithCycle?
  dsimp only
  rw [Surroundings.changeFirst?_congr fun member present =>
    agree.continueFrom_eq ofTarget ofLeaving (held member present)]

private theorem foldCycle_eq (ofSource : ∀ leaving, source = some leaving →
      holds (ofReference leaving)) {members : List Expr} (anywhere : Bool)
    (held : ∀ member ∈ members, holds member) :
    Surroundings.foldCycle? ⟨hasDefaultExit, hasLink⟩ members source target anywhere =
      Surroundings.foldCycle? ⟨other, hasLink⟩ members source target anywhere := by
  cases source with
  | none =>
      -- With `rfl` the kernel would compare what is done to members that are not there.
      simp only [Surroundings.foldCycle?, Option.bind_none, Option.map_none]
  | some leaving =>
      have ofLeaving := ofSource leaving rfl
      rw [Surroundings.foldCycle?, Surroundings.foldCycle?, Option.bind_some, Option.bind_some,
        ← agree.membersWithCycle_eq ofTarget ofLeaving anywhere held]
      apply Option.map_congr
      intro newMembers closed
      exact agree.flatten_eq_of_forall (agree.membersWithCycle ofTarget ofLeaving held closed).2

private theorem foldAtSharedEnd_eq {members : List Expr}
    (held : ∀ member ∈ members, holds member) :
    Surroundings.foldAtSharedEnd? ⟨hasDefaultExit, hasLink⟩ members source target =
      Surroundings.foldAtSharedEnd? ⟨other, hasLink⟩ members source target := by
  unfold Surroundings.foldAtSharedEnd?
  split
  · rename_i node
    dsimp only
    refine ite_congr rfl (fun _ => rfl) fun several => ?_
    have occupied : members.filter (Surroundings.endsAt (.node node)) ≠ [] := by
      intro none
      rw [none] at several
      exact several Nat.zero_lt_two
    rw [← agree.branching_eq fun member ending => held member (List.mem_filter.mp ending).1]
    cases formed : branching? hasDefaultExit
        (members.filter (Surroundings.endsAt (.node node))) with
    | none => rfl
    | some branches =>
        obtain ⟨inhabited, ofNew⟩ := agree.mergeWhere ofTarget held occupied formed
        exact congrArg some (agree.compactSet_eq inhabited ofNew)
  · rfl

/-- Folding an edge is the same with both answers if the ends of the edge have the property as
leaves. -/
theorem fold_eq (ofSource : ∀ leaving, source = some leaving → holds (ofReference leaving))
    {expr : Expr} (held : holds expr) (anchor : Anchor) :
    Surroundings.fold ⟨hasDefaultExit, hasLink⟩ source target anchor expr =
      Surroundings.fold ⟨other, hasLink⟩ source target anchor expr := by
  induction expr generalizing anchor with
  | empty => rfl
  | node nodeId => exact agree.foldAtLeaf_eq ofTarget ofSource (.node nodeId) anchor held
  | port nodeId portId =>
      exact agree.foldAtLeaf_eq ofTarget ofSource (.port nodeId portId) anchor held
  | trigger triggerId =>
      exact agree.foldAtLeaf_eq ofTarget ofSource (.trigger triggerId) anchor held
  | sequence first second ihFirst ihSecond =>
      obtain ⟨ofFirst, ofSecond⟩ := agree.operands held
      rw [Surroundings.fold_sequence, Surroundings.fold_sequence, ← ihFirst ofFirst,
        ← ihSecond ofSecond]
      cases atFirst : Surroundings.fold ⟨hasDefaultExit, hasLink⟩ source target anchor first with
      | none => rfl
      | some newFirst =>
          have ofNew := agree.fold ofTarget ofSource ofFirst atFirst
          exact congrArg some (agree.joinFirst_eq ofFirst ofSecond ofNew)
  | set members ih =>
      have ofMembers := agree.members held
      have sameFolds : members.map (Surroundings.fold ⟨hasDefaultExit, hasLink⟩ source target
          anchor) = members.map (Surroundings.fold ⟨other, hasLink⟩ source target anchor) :=
        List.map_congr_left fun member present =>
          ih member present (ofMembers member present) anchor
      have sameBest : (Surroundings.withBestFold? members (members.map
            (Surroundings.fold ⟨hasDefaultExit, hasLink⟩ source target anchor))).map
              (Surroundings.compactSet ⟨hasDefaultExit, hasLink⟩ target) =
          (Surroundings.withBestFold? members (members.map
            (Surroundings.fold ⟨hasDefaultExit, hasLink⟩ source target anchor))).map
              (Surroundings.compactSet ⟨other, hasLink⟩ target) := by
        apply Option.map_congr
        intro newMembers replaced
        obtain ⟨inhabited, ofNew⟩ := RewriteInvariant.forall_withBestFold ofMembers
          (fun member present _ taken =>
            agree.fold ofTarget ofSource (ofMembers member present) taken) replaced
        exact agree.compactSet_eq inhabited ofNew
      rw [Surroundings.fold_set, Surroundings.fold_set, sameBest, sameFolds,
        agree.foldCycle_eq ofTarget ofSource false ofMembers,
        agree.foldCycle_eq ofTarget ofSource true ofMembers,
        agree.foldAtSharedEnd_eq ofTarget ofMembers,
        agree.compactSet_eq (List.append_ne_nil_of_right_ne_nil _ (List.cons_ne_nil _ _))
          (RewriteInvariant.forall_append_target ofTarget ofMembers)]

end Folding

end RewriteAgreement

end FlowGraph
