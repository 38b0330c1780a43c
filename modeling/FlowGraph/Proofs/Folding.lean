import FlowGraph.Proofs.Acceptance
import FlowGraph.Proofs.AddedEdge
import FlowGraph.Proofs.Sharing

/-!
Folding an edge into an expression adds that edge and nothing else.

A sequence keeps its first operand in full beside the new version of it, so an exit
that changes is never one that something follows. In a second operand the edge is one
from a reference: an edge from the structural entry stays in the first operand.
-/

namespace FlowGraph

open FlowGraph.Expr

namespace Surroundings

variable {surroundings : Surroundings} {source : Option Reference} {target : NodeId}

/-! ### Compacting -/

private theorem solid_and_sameOutline_compact (surroundings : Surroundings) (target : NodeId)
    {expr : Expr} (solid : expr.Solid) :
    (surroundings.compact target expr).Solid ∧
      SameOutline (surroundings.compact target expr) expr := by
  cases solid with
  | @set members inhabited ofMembers =>
      unfold compact
      dsimp only
      cases begun : shareBeginning? surroundings.hasDefaultExit members with
      | some shared =>
          exact ⟨solid_shareBeginning ofMembers begun, sameOutline_shareBeginning ofMembers begun⟩
      | none =>
          cases ended : shareEnding? surroundings.hasDefaultExit target members with
          | some shared => exact solid_and_sameOutline_shareEnding ofMembers ended
          | none => exact ⟨.set inhabited ofMembers, .refl _⟩
  | sequence ofFirst ofSecond => exact ⟨.sequence ofFirst ofSecond, .refl _⟩
  | _ => exact ⟨by constructor, .refl _⟩

private theorem adds_compactSet {old : Expr} {newMembers : List Expr}
    (adds : Adds source target old (.set newMembers)) (merge : NodeId) :
    Adds source target old (surroundings.compactSet merge newMembers) := by
  have flat : Adds source target old (flatten surroundings.hasDefaultExit newMembers) :=
    adds.flatten
  obtain ⟨solid, same⟩ :=
    solid_and_sameOutline_compact surroundings merge flat.solid
  exact flat.of_sameOutline_new solid same

/-! ### Sequences -/

private theorem solid_and_sameOutline_joinFirst (surroundings : Surroundings)
    {first second newFirst : Expr} (ofFirst : first.Solid) (ofSecond : second.Solid)
    (ofNew : newFirst.Solid) :
    (surroundings.joinFirst first second newFirst).Solid ∧
      SameOutline (surroundings.joinFirst first second newFirst)
        (.set [first.andThen second, newFirst]) := by
  have combinedSame :=
    sameOutline_flatten surroundings.hasDefaultExit [first.andThen second, newFirst]
  have combinedSolid : (flatten surroundings.hasDefaultExit
      [first.andThen second, newFirst]).Solid := by
    apply solid_flatten (List.cons_ne_nil _ _)
    intro member present
    rcases List.mem_cons.mp present with rfl | last
    · exact ofFirst.andThen ofSecond
    · rw [List.mem_singleton.mp last]
      exact ofNew
  unfold joinFirst
  dsimp only
  split
  · rename_i members isSet
    rw [isSet] at combinedSame combinedSolid
    have membersSolid : ∀ member ∈ members, member.Solid := by
      cases combinedSolid with
      | set _ ofMembers => exact ofMembers
    split
    · rename_i shared begun
      exact ⟨solid_shareBeginning membersSolid begun,
        (sameOutline_shareBeginning membersSolid begun).trans combinedSame⟩
    · split
      · rename_i merge _
        rw [isSet]
        cases ended : shareEnding? surroundings.hasDefaultExit merge members with
        | none => exact ⟨combinedSolid, combinedSame⟩
        | some shared =>
            obtain ⟨solid, same⟩ := solid_and_sameOutline_shareEnding membersSolid ended
            exact ⟨solid, same.trans combinedSame⟩
      · rw [isSet]
        exact ⟨combinedSolid, combinedSame⟩
  · exact ⟨combinedSolid, combinedSame⟩

private theorem adds_joinFirst {first second newFirst : Expr} (ofFirst : first.Solid)
    (ofSecond : second.Solid) (adds : Adds source target first newFirst) :
    Adds source target (.sequence first second)
      (surroundings.joinFirst first second newFirst) := by
  obtain ⟨solid, same⟩ := surroundings.solid_and_sameOutline_joinFirst ofFirst ofSecond adds.solid
  have joined := sameGraph_andThen ofFirst ofSecond
  refine ⟨solid, ?_, ?_⟩
  · intro head
    rw [same.heads, mem_heads_set]
    simp only [List.mem_cons, List.not_mem_nil, or_false, exists_eq_or_imp, exists_eq_left]
    rw [joined.heads, heads_sequence, adds.heads]
    constructor
    · intro start
      rcases start with old | old | edge
      · exact Or.inl old
      · exact Or.inl old
      · exact Or.inr edge
    · exact Or.inr
  · intro link
    rw [same.links, mem_links_set]
    simp only [List.mem_cons, List.not_mem_nil, or_false, exists_eq_or_imp, exists_eq_left]
    rw [joined.links, adds.links, mem_links_sequence]
    constructor
    · intro inside
      rcases inside with old | inFirst | edge
      · exact Or.inl old
      · exact Or.inl (Or.inl inFirst)
      · exact Or.inr edge
    · intro inside
      rcases inside with old | edge
      · exact Or.inl old
      · exact Or.inr (Or.inr edge)

/-! ### Sets -/

private theorem mem_heads_of_owner? {expr : Expr} {owner : Reference}
    (isLeaf : expr.owner? = some owner) : owner ∈ expr.heads := by
  obtain ⟨reference, isReference, rfl⟩ := Option.map_eq_some_iff.mp isLeaf
  rw [eq_ofReference_of_reference? isReference, heads_ofReference]
  exact List.mem_singleton.mpr rfl

private theorem adds_foldCycle {members : List Expr} {folded : Expr}
    (solid : ∀ member ∈ members, member.Solid)
    (found : surroundings.foldCycle? members source target false = some folded) :
    Adds source target (.set members) folded := by
  obtain ⟨leaving, newMembers, rfl, closed, rfl⟩ := foldCycle?_cases found
  apply Adds.flatten
  obtain ⟨_, ⟨loop, direct, rfl⟩ | ⟨front, member, back, rfl, ends, rfl⟩⟩ :=
    membersWithCycle?_cases closed
  · have starts : ∀ other, some leaving = some other →
        other.owner ∈ (Expr.set members).heads := by
      intro other same
      cases same
      rcases direct with impossible | ⟨member, present, isLeaf⟩
      · cases impossible
      · rw [loop]
        exact mem_heads_set.mpr ⟨member, present, mem_heads_of_owner? isLeaf⟩
    exact adds_append_branchOf solid starts
  · have present : member ∈ front ++ member :: back :=
      List.mem_append_right front List.mem_cons_self
    apply Adds.replace solid
    exact adds_continueFrom (solid member present) (endings_contains_owner.mp ends)

theorem mem_mergeWhere {test : Expr → Bool} {merged new : Expr} {members : List Expr} :
    new ∈ mergeWhere test merged members ↔
      new = merged ∧ (∃ member ∈ members, test member = true) ∨
        new ∈ members ∧ test new = false := by
  induction members with
  | nil => simp [mergeWhere]
  | cons member members ih =>
      rw [mergeWhere]
      by_cases passes : test member = true
      · rw [if_pos passes, List.mem_cons, List.mem_filter, Bool.not_eq_true']
        constructor
        · intro present
          rcases present with isMerged | ⟨inRest, fails⟩
          · exact Or.inl ⟨isMerged, member, List.mem_cons_self, passes⟩
          · exact Or.inr ⟨List.mem_cons_of_mem member inRest, fails⟩
        · intro present
          rcases present with ⟨isMerged, _⟩ | ⟨inMembers, fails⟩
          · exact Or.inl isMerged
          · rcases List.mem_cons.mp inMembers with rfl | inRest
            · rw [passes] at fails
              cases fails
            · exact Or.inr ⟨inRest, fails⟩
      · rw [if_neg passes, List.mem_cons, ih]
        constructor
        · intro present
          rcases present with rfl | ⟨isMerged, other, inRest, ends⟩ | ⟨inRest, fails⟩
          · exact Or.inr ⟨List.mem_cons_self, Bool.eq_false_iff.mpr passes⟩
          · exact Or.inl ⟨isMerged, other, List.mem_cons_of_mem member inRest, ends⟩
          · exact Or.inr ⟨List.mem_cons_of_mem member inRest, fails⟩
        · intro present
          rcases present with ⟨isMerged, other, inMembers, ends⟩ | ⟨inMembers, fails⟩
          · rcases List.mem_cons.mp inMembers with rfl | inRest
            · exact absurd ends passes
            · exact Or.inr (Or.inl ⟨isMerged, other, inRest, ends⟩)
          · rcases List.mem_cons.mp inMembers with rfl | inRest
            · exact Or.inl rfl
            · exact Or.inr (Or.inr ⟨inRest, fails⟩)

private theorem adds_branches {ending : List Expr} {branches : Expr} {node : NodeId}
    (inhabited : ending ≠ []) (solid : ∀ member ∈ ending, member.Solid)
    (ends : ∀ member ∈ ending, endsAt (.node node) member = true)
    (formed : branching? surroundings.hasDefaultExit ending = some branches) :
    Adds (some (.node node)) target (.set ending) (branches.andThen (.node target)) := by
  have branchesSolid := solid_branching inhabited solid formed
  have same := sameGraph_branching formed
  have joined := sameGraph_andThen branchesSolid (.node target)
  refine ⟨branchesSolid.andThen (.node target), ?_, ?_⟩
  · intro head
    rw [joined.heads, heads_sequence, same.heads]
    simp only [reduceCtorEq, false_and, or_false]
  · intro link
    have leftThere : link.1 ∈ (Expr.set ending).exits ↔ link.1 = .node node := by
      rw [mem_exits_set]
      constructor
      · intro exit
        obtain ⟨member, present, exit⟩ := exit
        exact (mem_exits_of_endsAt (solid member present) (ends member present)).mp exit
      · intro exit
        obtain ⟨member, present⟩ := List.exists_mem_of_ne_nil ending inhabited
        exact ⟨member, present,
          (mem_exits_of_endsAt (solid member present) (ends member present)).mpr exit⟩
    rw [joined.links, mem_links_sequence, same.links, same.exits, leftThere]
    simp only [links, heads, List.not_mem_nil, List.mem_singleton, false_or, Option.some.injEq,
      eq_comm]

private theorem exists_mem_mergeWhere {test : Expr → Bool} {merged : Expr} {members : List Expr}
    (several : members.filter test ≠ []) (holds : Expr → Prop) :
    (∃ new ∈ mergeWhere test merged members, holds new) ↔
      holds merged ∨ ∃ member ∈ members, test member = false ∧ holds member := by
  obtain ⟨ending, isEnding⟩ := List.exists_mem_of_ne_nil _ several
  have passes := List.mem_filter.mp isEnding
  constructor
  · intro found
    obtain ⟨new, present, held⟩ := found
    rcases mem_mergeWhere.mp present with ⟨rfl, _⟩ | ⟨inMembers, fails⟩
    · exact Or.inl held
    · exact Or.inr ⟨new, inMembers, fails, held⟩
  · intro found
    rcases found with held | ⟨member, inMembers, fails, held⟩
    · exact ⟨merged, mem_mergeWhere.mpr (Or.inl ⟨rfl, ending, passes⟩), held⟩
    · exact ⟨member, mem_mergeWhere.mpr (Or.inr ⟨inMembers, fails⟩), held⟩

private theorem exists_mem_filter_or (test : Expr → Bool) (members : List Expr)
    (holds : Expr → Prop) :
    (∃ member ∈ members, holds member) ↔
      (∃ member ∈ members.filter test, holds member) ∨
        ∃ member ∈ members, test member = false ∧ holds member := by
  constructor
  · intro found
    obtain ⟨member, present, held⟩ := found
    cases passes : test member with
    | true => exact Or.inl ⟨member, List.mem_filter.mpr ⟨present, passes⟩, held⟩
    | false => exact Or.inr ⟨member, present, passes, held⟩
  · intro found
    rcases found with ⟨member, passes, held⟩ | ⟨member, present, _, held⟩
    · exact ⟨member, (List.mem_filter.mp passes).1, held⟩
    · exact ⟨member, present, held⟩

private theorem adds_mergeWhere {test : Expr → Bool} {merged : Expr} {members : List Expr}
    (solid : ∀ member ∈ members, member.Solid) (several : members.filter test ≠ [])
    (adds : Adds source target (.set (members.filter test)) merged) :
    Adds source target (.set members) (.set (mergeWhere test merged members)) := by
  obtain ⟨ending, isEnding⟩ := List.exists_mem_of_ne_nil _ several
  have mergedInside : merged ∈ mergeWhere test merged members :=
    mem_mergeWhere.mpr (Or.inl ⟨rfl, ending, List.mem_filter.mp isEnding⟩)
  refine ⟨.set (List.ne_nil_of_mem mergedInside) ?_, ?_, ?_⟩
  · intro new present
    rcases mem_mergeWhere.mp present with ⟨rfl, _⟩ | ⟨inMembers, _⟩
    · exact adds.solid
    · exact solid new inMembers
  · intro head
    have atMerged := adds.heads head
    rw [mem_heads_set] at atMerged
    rw [mem_heads_set, mem_heads_set, exists_mem_mergeWhere several, atMerged,
      exists_mem_filter_or test members (fun member => head ∈ member.heads), or_right_comm]
  · intro link
    have atMerged := adds.links link
    rw [mem_links_set] at atMerged
    rw [mem_links_set, mem_links_set, exists_mem_mergeWhere several, atMerged,
      exists_mem_filter_or test members (fun member => link ∈ member.links), or_right_comm]

private theorem adds_foldAtSharedEnd {members : List Expr} {folded : Expr}
    (solid : ∀ member ∈ members, member.Solid)
    (found : surroundings.foldAtSharedEnd? members source target = some folded) :
    Adds source target (.set members) folded := by
  obtain ⟨node, branches, rfl, several, formed, rfl⟩ := foldAtSharedEnd?_cases found
  apply adds_compactSet
  apply adds_mergeWhere solid several
  exact adds_branches several
    (fun member present => solid member (List.mem_filter.mp present).1)
    (fun member present => (List.mem_filter.mp present).2) formed

/-! ### Whole expressions -/

private theorem adds_foldAtLeaf {leaf : Reference} {anchor : Anchor} {folded : Expr}
    (fits : anchor.admits source = source.isNone)
    (found : surroundings.foldAtLeaf leaf source target anchor = some folded) :
    Adds source target (ofReference leaf) folded := by
  cases source with
  | none =>
      unfold foldAtLeaf at found
      dsimp only at found
      rw [fits] at found
      cases found
      apply adds_flatten_branchOf
      intro leaving impossible
      cases impossible
  | some leaving =>
      by_cases sameOwner : leaf.owner = leaving.owner
      · rcases foldAtLeaf_of_sameOwner surroundings target anchor sameOwner with
          follows | branches
        · rw [follows] at found
          cases found
          exact adds_link sameOwner
        · rw [branches] at found
          cases found
          have starts : ∀ other, some leaving = some other → leaf.owner = other.owner := by
            intro other same
            cases same
            exact sameOwner
          exact adds_flatten_branchOf starts
      · rw [foldAtLeaf_of_otherOwner anchor sameOwner, fits] at found
        cases found

/-- An edge that is taken is added, and nothing else. The anchor admits edges of the
structural entry alone: that of a whole tree does, and so does that of a second operand
when the first one has refused the edge. -/
theorem adds_fold {expr folded : Expr} (solid : expr.Solid) {anchor : Anchor}
    (fits : anchor.admits source = source.isNone)
    (found : surroundings.fold source target anchor expr = some folded) :
    Adds source target expr folded := by
  induction solid generalizing anchor folded with
  | node nodeId => exact adds_foldAtLeaf fits found
  | port nodeId portId => exact adds_foldAtLeaf fits found
  | trigger triggerId => exact adds_foldAtLeaf fits found
  | @sequence first second ofFirst ofSecond ihFirst ihSecond =>
      rw [fold_sequence] at found
      have firstAccepts := isSome_fold surroundings source target anchor ofFirst
      cases atFirst : surroundings.fold source target anchor first with
      | some newFirst =>
          rw [atFirst] at found
          cases found
          exact adds_joinFirst ofFirst ofSecond (ihFirst fits atFirst)
      | none =>
          rw [atFirst] at found firstAccepts
          obtain ⟨newSecond, atSecond, rfl⟩ := Option.map_eq_some_iff.mp found
          cases source with
          | none => exact absurd (firstAccepts.mpr (Or.inl fits)) Bool.false_ne_true
          | some leaving =>
              have refused := admits_endings_eq_false_of_fold_eq_none ofFirst atFirst
              have adds := ihSecond refused atSecond
              exact (adds.sequence ofFirst).of_sameOutline_new (ofFirst.andThen adds.solid)
                (sameGraph_andThen ofFirst adds.solid).toSameOutline
  | @set members inhabited ofMembers ih =>
      rw [fold_set] at found
      simp only [Option.or_eq_some_iff] at found
      rcases found with cycle | ⟨_, ending | ⟨_, best | ⟨noBest, beside | ⟨_, cycle⟩⟩⟩⟩
      · exact adds_foldCycle ofMembers cycle
      · exact adds_foldAtSharedEnd ofMembers ending
      · obtain ⟨newMembers, replaced, rfl⟩ := Option.map_eq_some_iff.mp best
        obtain ⟨front, member, back, folded, rfl, taken, rfl⟩ := withBestFold?_cases replaced
        have present : member ∈ front ++ member :: back :=
          List.mem_append_right front List.mem_cons_self
        exact adds_compactSet (Adds.replace ofMembers (ih member present fits taken)) target
      · by_cases admitted : anchor.admits source = true
        · rw [if_pos admitted] at beside
          cases beside
          rw [fits] at admitted
          cases source with
          | some leaving => cases admitted
          | none =>
              apply adds_compactSet
              apply adds_append_branchOf ofMembers
              intro leaving impossible
              cases impossible
        · rw [if_neg admitted] at beside
          cases beside
      · -- A member that holds the source has taken the edge already.
        obtain ⟨member, present, held⟩ := holds_set.mp (holds_of_foldCycle? cycle)
        have taken := (isSome_fold surroundings source target anchor
          (ofMembers member present)).mpr (Or.inr held)
        have best := isSome_withBestFold.mpr ⟨member, present, taken⟩
        rw [Option.map_eq_none_iff] at noBest
        rw [noBest] at best
        cases best

end Surroundings

/-! ### Main result -/

/-- An edge folded into a solid expression is one more link if it leaves a reference, and
one more head if it leaves the structural entry; the expression stays solid and keeps all
that it held. -/
theorem foldAtTop_adds_edge (workflow : Workflow) (resolved : ResolvedEdge)
    {expr folded : Expr} (solid : expr.Solid)
    (found : workflow.surroundings.foldAtTop resolved.source resolved.target expr =
      some folded) :
    folded.Solid ∧
      (∀ link, link ∈ folded.links ↔
        link ∈ expr.links ∨ resolved.source = some link.1 ∧ link.2 = .node resolved.target) ∧
      ∀ head, head ∈ folded.heads ↔
        head ∈ expr.heads ∨ resolved.source = none ∧ head = .node resolved.target := by
  have adds := Surroundings.adds_fold solid (Anchor.admits_entry resolved.source) found
  exact ⟨adds.solid, adds.links, adds.heads⟩

/-- The edge back from `b` is put behind the branch through `a`, beside a bare `b`. -/
theorem foldAtTop_adds_edge_twoCycle :
    ∃ workflow, Workflow.load twoCycle = .ok workflow ∧
      (Expr.set [.sequence (.node ⟨0⟩) (.node ⟨1⟩), .node ⟨1⟩]).Solid ∧
      workflow.surroundings.foldAtTop (some (.node ⟨1⟩)) ⟨0⟩
          (.set [.sequence (.node ⟨0⟩) (.node ⟨1⟩), .node ⟨1⟩]) =
        some (.set [.sequence (.sequence (.node ⟨0⟩) (.node ⟨1⟩)) (.node ⟨0⟩), .node ⟨1⟩]) ∧
      (Expr.set [.sequence (.sequence (.node ⟨0⟩) (.node ⟨1⟩)) (.node ⟨0⟩), .node ⟨1⟩]).Solid ∧
      (.node ⟨1⟩, .node ⟨0⟩) ∈ (Expr.set
        [.sequence (.sequence (.node ⟨0⟩) (.node ⟨1⟩)) (.node ⟨0⟩), .node ⟨1⟩]).links := by
  have evaluated : ((Workflow.load twoCycle).toOption.map fun workflow =>
      workflow.surroundings.foldAtTop (some (.node ⟨1⟩)) ⟨0⟩
        (.set [.sequence (.node ⟨0⟩) (.node ⟨1⟩), .node ⟨1⟩])) =
      some (some (.set
        [.sequence (.sequence (.node ⟨0⟩) (.node ⟨1⟩)) (.node ⟨0⟩), .node ⟨1⟩])) := by
    decide +kernel
  obtain ⟨workflow, loaded, found⟩ := Workflow.exists_load_of_map_toOption evaluated
  have solid : (Expr.set [.sequence (.node ⟨0⟩) (.node ⟨1⟩), .node ⟨1⟩]).Solid := by
    apply Solid.set (List.cons_ne_nil _ _)
    intro member present
    rcases List.mem_cons.mp present with rfl | last
    · exact .sequence (.node _) (.node _)
    · rw [List.mem_singleton.mp last]
      exact .node _
  obtain ⟨foldedSolid, links, _⟩ :=
    foldAtTop_adds_edge workflow ⟨some (.node ⟨1⟩), ⟨0⟩⟩ solid found
  exact ⟨workflow, loaded, solid, found, foldedSolid, (links _).mpr (Or.inr ⟨rfl, rfl⟩)⟩

end FlowGraph
