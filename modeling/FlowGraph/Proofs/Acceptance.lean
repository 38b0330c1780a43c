import FlowGraph.Build
import FlowGraph.Document.Builder
import FlowGraph.Proofs.LoadedDocument
import FlowGraph.Proofs.Outline

/-!
Which edges have a place in an expression. Folding is refused exactly for an edge
whose source is a reference that neither belongs to a leaf of the expression nor is
admitted by the anchor. The anchor of a second operand admits sources of the first
operand only, which has taken those edges before.
-/

namespace FlowGraph

open FlowGraph.Expr

theorem Reference.owner_owner (reference : Reference) :
    reference.owner.owner = reference.owner := by
  cases reference <;> rfl

namespace Expr

private theorem contains_congr {left right : Reference} (sameOwner : left.owner = right.owner)
    (expr : Expr) : expr.contains left = expr.contains right := by
  induction expr with
  | sequence first second ihFirst ihSecond => rw [contains, contains, ihFirst, ihSecond]
  | set members ih =>
      rw [Bool.eq_iff_iff, contains_set, contains_set]
      constructor
      · intro held
        obtain ⟨member, present, inside⟩ := held
        exact ⟨member, present, (ih member present).symm.trans inside⟩
      · intro held
        obtain ⟨member, present, inside⟩ := held
        exact ⟨member, present, (ih member present).trans inside⟩
  | _ => simp only [contains, sameOwner]

theorem contains_owner (reference : Reference) (expr : Expr) :
    expr.contains reference.owner = expr.contains reference :=
  contains_congr reference.owner_owner expr

theorem contains_ofReference {leaf reference : Reference} :
    (ofReference leaf).contains reference = true ↔ leaf.owner = reference.owner := by
  cases leaf <;> exact beq_iff_eq

end Expr

def Holds (expr : Expr) (source : Option Reference) : Prop :=
  ∃ leaving, source = some leaving ∧ expr.contains leaving = true

private theorem holds_sequence {first second : Expr} {source : Option Reference} :
    Holds (.sequence first second) source ↔ Holds first source ∨ Holds second source := by
  constructor
  · intro held
    obtain ⟨leaving, isSource, inside⟩ := held
    rcases contains_sequence.mp inside with inFirst | inSecond
    · exact Or.inl ⟨leaving, isSource, inFirst⟩
    · exact Or.inr ⟨leaving, isSource, inSecond⟩
  · intro held
    rcases held with ⟨leaving, isSource, inFirst⟩ | ⟨leaving, isSource, inSecond⟩
    · exact ⟨leaving, isSource, contains_sequence.mpr (Or.inl inFirst)⟩
    · exact ⟨leaving, isSource, contains_sequence.mpr (Or.inr inSecond)⟩

theorem holds_set {members : List Expr} {source : Option Reference} :
    Holds (.set members) source ↔ ∃ member ∈ members, Holds member source := by
  constructor
  · intro held
    obtain ⟨leaving, isSource, inside⟩ := held
    obtain ⟨member, present, inMember⟩ := contains_set.mp inside
    exact ⟨member, present, leaving, isSource, inMember⟩
  · intro held
    obtain ⟨member, present, leaving, isSource, inMember⟩ := held
    exact ⟨leaving, isSource, contains_set.mpr ⟨member, present, inMember⟩⟩

theorem Anchor.admits_entry (source : Option Reference) :
    Anchor.entry.admits source = source.isNone := by
  cases source <;> rfl

private theorem Anchor.holds_of_endings_admits {expr : Expr} {source : Option Reference}
    (admitted : (Anchor.endings expr.endings).admits source = true) : Holds expr source := by
  cases source with
  | none => cases admitted
  | some leaving =>
      simp only [Anchor.admits, Bool.or_eq_true, List.contains_eq_mem, decide_eq_true_eq,
        mem_endings] at admitted
      rcases admitted with ⟨exit, isExit, owner⟩ | ⟨exit, isExit, owner⟩
      · refine ⟨leaving, rfl, contains_of_mem_exits isExit ?_⟩
        rw [← owner, Reference.owner_owner]
      · exact ⟨leaving, rfl, contains_of_mem_exits isExit owner⟩

namespace Surroundings

variable {surroundings : Surroundings} {source : Option Reference} {target : NodeId}

/-! ### Leaves -/

theorem foldAtLeaf_of_sameOwner (surroundings : Surroundings) (target : NodeId)
    (anchor : Anchor) {leaf leaving : Reference} (sameOwner : leaf.owner = leaving.owner) :
    surroundings.foldAtLeaf leaf (some leaving) target anchor = some (link leaving target) ∨
      surroundings.foldAtLeaf leaf (some leaving) target anchor =
        some (flatten surroundings.hasDefaultExit [ofReference leaf, link leaving target]) := by
  unfold foldAtLeaf
  dsimp only
  by_cases same : leaf = leaving
  · rw [if_pos same]
    exact Or.inl rfl
  · rw [if_neg same, if_pos sameOwner]
    split
    · exact Or.inl rfl
    · exact Or.inr rfl

theorem foldAtLeaf_of_otherOwner {leaf leaving : Reference} (anchor : Anchor)
    (otherOwner : leaf.owner ≠ leaving.owner) :
    surroundings.foldAtLeaf leaf (some leaving) target anchor =
      if anchor.admits (some leaving) then
        some (flatten surroundings.hasDefaultExit [ofReference leaf, .node target])
      else
        none := by
  have other : leaf ≠ leaving := by
    intro same
    rw [same] at otherOwner
    exact otherOwner rfl
  unfold foldAtLeaf
  dsimp only
  rw [if_neg other, if_neg otherOwner]

private theorem isSome_foldAtLeaf {leaf : Reference} {anchor : Anchor} :
    (surroundings.foldAtLeaf leaf source target anchor).isSome = true ↔
      anchor.admits source = true ∨ Holds (ofReference leaf) source := by
  cases source with
  | none =>
      have notHeld : ¬ Holds (ofReference leaf) none := by
        intro held
        obtain ⟨leaving, impossible, _⟩ := held
        cases impossible
      cases admitted : anchor.admits none <;> simp [foldAtLeaf, admitted, notHeld]
  | some leaving =>
      have held : Holds (ofReference leaf) (some leaving) ↔ leaf.owner = leaving.owner := by
        simp [Holds, contains_ofReference]
      rw [held]
      by_cases sameOwner : leaf.owner = leaving.owner
      · rcases foldAtLeaf_of_sameOwner surroundings target anchor sameOwner with folded | folded
        · simp [folded, sameOwner]
        · simp [folded, sameOwner]
      · rw [foldAtLeaf_of_otherOwner anchor sameOwner]
        cases admitted : anchor.admits (some leaving) <;> simp [sameOwner]

/-! ### Sets -/

private theorem foldEach_eq_map (anchor : Anchor) (members : List Expr) :
    surroundings.foldEach source target anchor members =
      members.map (surroundings.fold source target anchor) := by
  induction members with
  | nil => rfl
  | cons member members ih => rw [foldEach, ih, List.map_cons]

private theorem changeFirst?_cases {test : Expr → Bool} {change : Expr → Expr}
    {members newMembers : List Expr} (found : changeFirst? test change members = some newMembers) :
    ∃ front member back, members = front ++ member :: back ∧ test member = true ∧
      newMembers = front ++ change member :: back := by
  induction members generalizing newMembers with
  | nil => cases found
  | cons member members ih =>
      rw [changeFirst?] at found
      by_cases passes : test member = true
      · rw [if_pos passes] at found
        cases found
        exact ⟨[], member, members, rfl, passes, rfl⟩
      · rw [if_neg passes] at found
        obtain ⟨rest, inRest, rfl⟩ := Option.map_eq_some_iff.mp found
        obtain ⟨front, chosen, back, split, passes, rfl⟩ := ih inRest
        exact ⟨member :: front, chosen, back, by rw [split]; rfl, passes, rfl⟩

/-- An edge that closes a cycle is a loop at the target, next to the other members, or is
put behind the first member that ends in the owner of its source. -/
theorem membersWithCycle?_cases {members newMembers : List Expr} {leaving : Reference}
    {anywhere : Bool}
    (found : surroundings.membersWithCycle? members leaving target anywhere = some newMembers) :
    Holds (.set members) (some leaving) ∧
      (leaving.owner = .node target ∧
          (anywhere = true ∨ ∃ member ∈ members, member.owner? = some (.node target)) ∧
          newMembers = members ++ [link leaving target] ∨
        ∃ front member back, members = front ++ member :: back ∧
          member.endings.contains leaving.owner = true ∧
          newMembers = front ++
            member.continueFrom surroundings.hasDefaultExit leaving target :: back) := by
  unfold membersWithCycle? at found
  dsimp only at found
  split at found
  · rename_i present
    rw [Bool.and_eq_true, List.any_eq_true, List.any_eq_true] at present
    obtain ⟨_, member, inMembers, inside⟩ := present
    rw [contains_owner] at inside
    refine ⟨⟨leaving, rfl, contains_set.mpr ⟨member, inMembers, inside⟩⟩, ?_⟩
    split at found
    · cases found
    · rename_i sourceNode isNode
      split at found
      · rename_i loop
        split at found
        · rename_i allowed
          cases found
          refine Or.inl ⟨?_, ?_, rfl⟩
          · rw [← loop]
            cases leaving <;> cases isNode <;> rfl
          · rw [Bool.or_eq_true, List.any_eq_true] at allowed
            rcases allowed with ⟨direct, inMembers, isLeaf⟩ | anywhere
            · exact Or.inr ⟨direct, inMembers, eq_of_beq isLeaf⟩
            · exact Or.inl anywhere
        · cases found
      · split at found
        · exact Or.inr (changeFirst?_cases found)
        · cases found
  · cases found

theorem foldCycle?_cases {members : List Expr} {anywhere : Bool} {folded : Expr}
    (found : surroundings.foldCycle? members source target anywhere = some folded) :
    ∃ leaving newMembers, source = some leaving ∧
      surroundings.membersWithCycle? members leaving target anywhere = some newMembers ∧
      folded = flatten surroundings.hasDefaultExit newMembers := by
  obtain ⟨newMembers, closed, rfl⟩ := Option.map_eq_some_iff.mp found
  obtain ⟨leaving, isSource, closed⟩ := Option.bind_eq_some_iff.mp closed
  exact ⟨leaving, newMembers, isSource, closed, rfl⟩

theorem mem_exits_of_endsAt {reference leaving : Reference} {expr : Expr} (solid : expr.Solid)
    (ends : endsAt reference expr = true) : leaving ∈ expr.exits ↔ leaving = reference := by
  unfold endsAt at ends
  induction solid with
  | @sequence first second ofFirst ofSecond _ ihSecond =>
      apply ihSecond
      have last := List.getLast?_eq_some_getLast ofSecond.steps_ne_nil
      rw [steps, List.getLast?_append, last, Option.some_or, ← last] at ends
      exact ends
  | set _ _ _ => cases ends
  | _ =>
      have same := Option.some.inj (eq_of_beq ends)
      rw [exits, List.mem_singleton, same]

theorem foldAtSharedEnd?_cases {members : List Expr} {folded : Expr}
    (found : surroundings.foldAtSharedEnd? members source target = some folded) :
    ∃ node branches, source = some (.node node) ∧
      members.filter (endsAt (.node node)) ≠ [] ∧
      branching? surroundings.hasDefaultExit (members.filter (endsAt (.node node))) =
        some branches ∧
      folded = surroundings.compactSet target
        (mergeWhere (endsAt (.node node)) (branches.andThen (.node target)) members) := by
  unfold foldAtSharedEnd? at found
  split at found
  · rename_i node
    dsimp only at found
    split at found
    · cases found
    · rename_i several
      obtain ⟨branches, formed, rfl⟩ := Option.map_eq_some_iff.mp found
      refine ⟨node, branches, rfl, ?_, formed, rfl⟩
      intro none
      rw [none] at several
      exact several (by decide)
  · cases found

theorem holds_of_foldCycle? {members : List Expr} {anywhere : Bool} {folded : Expr}
    (found : surroundings.foldCycle? members source target anywhere = some folded) :
    Holds (.set members) source := by
  obtain ⟨leaving, newMembers, isSource, closed, _⟩ := foldCycle?_cases found
  rw [isSource]
  exact (membersWithCycle?_cases closed).1

private theorem holds_of_foldAtSharedEnd? {members : List Expr} {folded : Expr}
    (solid : ∀ member ∈ members, member.Solid)
    (found : surroundings.foldAtSharedEnd? members source target = some folded) :
    Holds (.set members) source := by
  obtain ⟨node, branches, isSource, several, _⟩ := foldAtSharedEnd?_cases found
  obtain ⟨member, isEnding⟩ := List.exists_mem_of_ne_nil _ several
  obtain ⟨present, ends⟩ := List.mem_filter.mp isEnding
  have exit := (mem_exits_of_endsAt (solid member present) ends).mpr rfl
  exact ⟨.node node, isSource, contains_set.mpr ⟨member, present, contains_of_mem_exits exit rfl⟩⟩

private theorem findIdx?_some_getElem? {folds : List (Option Expr)} {test : Option Expr → Bool}
    {place : Nat} (found : folds.findIdx? test = some place) :
    ∃ fold, folds[place]? = some fold ∧ test fold = true := by
  have passes := List.of_findIdx?_eq_some found
  split at passes
  · rename_i fold atPlace
    exact ⟨fold, atPlace, passes⟩
  · cases passes

private theorem bestFold?_cases {folds : List (Option Expr)} {place : Nat}
    (found : bestFold? folds = some place) : ∃ folded, folds[place]? = some (some folded) := by
  have taken : ∃ fold, folds[place]? = some fold ∧ fold.isSome = true := by
    rcases Option.or_eq_some_iff.mp found with best | ⟨_, first⟩
    · obtain ⟨fold, atPlace, passes⟩ := findIdx?_some_getElem? best
      refine ⟨fold, atPlace, ?_⟩
      cases fold with
      | none => cases passes
      | some folded => rfl
    · exact findIdx?_some_getElem? first
  obtain ⟨fold, atPlace, isSome⟩ := taken
  obtain ⟨folded, rfl⟩ := Option.isSome_iff_exists.mp isSome
  exact ⟨folded, atPlace⟩

private theorem set_cases {members : List Expr} {place : Nat} {member : Expr}
    (atPlace : members[place]? = some member) :
    ∃ front back, members = front ++ member :: back ∧
      ∀ new, members.set place new = front ++ new :: back := by
  induction members generalizing place with
  | nil => cases atPlace
  | cons head tail ih =>
      cases place with
      | zero =>
          cases atPlace
          exact ⟨[], tail, rfl, fun _ => rfl⟩
      | succ place =>
          obtain ⟨front, back, split, replaced⟩ := ih atPlace
          refine ⟨head :: front, back, ?_, ?_⟩
          · rw [split]
            rfl
          · intro new
            rw [List.set_cons_succ, replaced]
            rfl

theorem withBestFold?_cases {fold : Expr → Option Expr} {members newMembers : List Expr}
    (found : withBestFold? members (members.map fold) = some newMembers) :
    ∃ front member back folded, members = front ++ member :: back ∧
      fold member = some folded ∧ newMembers = front ++ folded :: back := by
  obtain ⟨place, best, found⟩ := Option.bind_eq_some_iff.mp found
  obtain ⟨folded, atPlace⟩ := bestFold?_cases best
  rw [atPlace, Option.join_some, Option.map_some, Option.some.injEq] at found
  rw [List.getElem?_map, Option.map_eq_some_iff] at atPlace
  obtain ⟨member, atPlace, taken⟩ := atPlace
  obtain ⟨front, back, split, replaced⟩ := set_cases atPlace
  exact ⟨front, member, back, folded, split, taken, found.symm.trans (replaced folded)⟩

theorem isSome_withBestFold {fold : Expr → Option Expr} {members : List Expr} :
    (withBestFold? members (members.map fold)).isSome = true ↔
      ∃ member ∈ members, (fold member).isSome = true := by
  constructor
  · intro found
    obtain ⟨newMembers, found⟩ := Option.isSome_iff_exists.mp found
    obtain ⟨front, member, back, folded, rfl, taken, _⟩ := withBestFold?_cases found
    refine ⟨member, List.mem_append_right front List.mem_cons_self, ?_⟩
    rw [taken]
    rfl
  · intro taken
    obtain ⟨member, present, isSome⟩ := taken
    have best : (bestFold? (members.map fold)).isSome = true := by
      rw [bestFold?, Option.isSome_or, Bool.or_eq_true, List.findIdx?_isSome,
        List.findIdx?_isSome, List.any_eq_true, List.any_eq_true]
      exact Or.inr ⟨fold member, List.mem_map_of_mem present, isSome⟩
    obtain ⟨place, best⟩ := Option.isSome_iff_exists.mp best
    obtain ⟨folded, atPlace⟩ := bestFold?_cases best
    rw [withBestFold?, best, Option.bind_some, atPlace]
    rfl

/-! ### Whole expressions -/

theorem fold_sequence (first second : Expr) (anchor : Anchor) :
    surroundings.fold source target anchor (.sequence first second) =
      match surroundings.fold source target anchor first with
      | some newFirst => some (surroundings.joinFirst first second newFirst)
      | none =>
          (surroundings.fold source target (.endings first.endings) second).map first.andThen :=
  rfl

theorem fold_set (members : List Expr) (anchor : Anchor) :
    surroundings.fold source target anchor (.set members) =
      (surroundings.foldCycle? members source target false).or
        ((surroundings.foldAtSharedEnd? members source target).or
          (((withBestFold? members (members.map (surroundings.fold source target anchor))).map
              (surroundings.compactSet target)).or
            ((if anchor.admits source then
                some (surroundings.compactSet target (members ++ [.node target]))
              else
                none).or
              (surroundings.foldCycle? members source target true)))) := by
  rw [fold, foldEach_eq_map]
  simp only [Option.orElse_eq_orElse, Option.orElse_eq_or]

/-- A solid expression takes an edge exactly if it holds the source or the anchor admits
it. -/
theorem isSome_fold (surroundings : Surroundings) (source : Option Reference) (target : NodeId)
    (anchor : Anchor) {expr : Expr} (solid : expr.Solid) :
    (surroundings.fold source target anchor expr).isSome = true ↔
      anchor.admits source = true ∨ Holds expr source := by
  induction solid generalizing anchor with
  | node nodeId => exact isSome_foldAtLeaf
  | port nodeId portId => exact isSome_foldAtLeaf
  | trigger triggerId => exact isSome_foldAtLeaf
  | @sequence first second _ _ ihFirst ihSecond =>
      rw [fold_sequence, holds_sequence, ← or_assoc, ← ihFirst anchor]
      cases atFirst : surroundings.fold source target anchor first with
      | some newFirst => simp
      | none =>
          -- What the first operand refuses, its endings do not admit.
          have refused : ¬ Holds first source := by
            intro held
            have taken := (ihFirst anchor).mpr (Or.inr held)
            rw [atFirst] at taken
            cases taken
          rw [Option.isSome_map, ihSecond]
          constructor
          · intro accepted
            rcases accepted with admitted | held
            · exact absurd (Anchor.holds_of_endings_admits admitted) refused
            · exact Or.inr held
          · intro accepted
            rcases accepted with impossible | held
            · cases impossible
            · exact Or.inr held
  | @set members inhabited ofMembers ih =>
      have eachMember : (∃ member ∈ members,
            (surroundings.fold source target anchor member).isSome = true) ↔
          ∃ member ∈ members, anchor.admits source = true ∨ Holds member source :=
        exists_congr fun member => and_congr_right fun present => ih member present anchor
      rw [fold_set, holds_set]
      constructor
      · intro accepted
        obtain ⟨folded, found⟩ := Option.isSome_iff_exists.mp accepted
        simp only [Option.or_eq_some_iff] at found
        rcases found with cycle | ⟨_, ending | ⟨_, best | ⟨_, beside | ⟨_, cycle⟩⟩⟩⟩
        · exact Or.inr (holds_set.mp (holds_of_foldCycle? cycle))
        · exact Or.inr (holds_set.mp (holds_of_foldAtSharedEnd? ofMembers ending))
        · obtain ⟨newMembers, found, _⟩ := Option.map_eq_some_iff.mp best
          have taken := isSome_withBestFold.mp (Option.isSome_iff_exists.mpr ⟨newMembers, found⟩)
          obtain ⟨member, present, admitted | held⟩ := eachMember.mp taken
          · exact Or.inl admitted
          · exact Or.inr ⟨member, present, held⟩
        · by_cases admitted : anchor.admits source = true
          · exact Or.inl admitted
          · rw [if_neg admitted] at beside
            cases beside
        · exact Or.inr (holds_set.mp (holds_of_foldCycle? cycle))
      · intro accepted
        have taken : ∃ member ∈ members, anchor.admits source = true ∨ Holds member source := by
          rcases accepted with admitted | ⟨member, present, held⟩
          · obtain ⟨member, present⟩ := List.exists_mem_of_ne_nil members inhabited
            exact ⟨member, present, Or.inl admitted⟩
          · exact ⟨member, present, Or.inr held⟩
        have best := isSome_withBestFold.mpr (eachMember.mpr taken)
        simp only [Option.isSome_or, Option.isSome_map, best, Bool.true_or, Bool.or_true]

theorem admits_endings_eq_false_of_fold_eq_none {first : Expr} (ofFirst : first.Solid)
    {anchor : Anchor} (refused : surroundings.fold source target anchor first = none) :
    (Anchor.endings first.endings).admits source = false := by
  rw [Bool.eq_false_iff]
  intro admitted
  have taken := (isSome_fold surroundings source target anchor ofFirst).mpr
    (Or.inr (Anchor.holds_of_endings_admits admitted))
  rw [refused] at taken
  cases taken

/-- Folding asks the anchor for nothing but whether it admits the source. -/
theorem fold_congr_anchor {anchor other : Anchor}
    (same : anchor.admits source = other.admits source) (expr : Expr) :
    surroundings.fold source target anchor expr = surroundings.fold source target other expr := by
  induction expr with
  | empty => rfl
  | sequence first second ihFirst _ => rw [fold_sequence, fold_sequence, ihFirst]
  | set members ih =>
      have sameFolds : members.map (surroundings.fold source target anchor) =
          members.map (surroundings.fold source target other) :=
        List.map_congr_left ih
      rw [fold_set, fold_set, sameFolds, same]
  | _ =>
      unfold fold foldAtLeaf
      rw [same]

/-- Folding an edge that leaves a node asks for links back to that node only, and folding
any other edge asks for none. -/
theorem fold_congr_hasLink {hasDefaultExit : NodeId → Bool} {hasLink other : NodeId → NodeId → Bool}
    (same : ∀ node, source.bind Reference.node? = some node →
      hasLink target node = other target node) (anchor : Anchor) (expr : Expr) :
    fold ⟨hasDefaultExit, hasLink⟩ source target anchor expr =
      fold ⟨hasDefaultExit, other⟩ source target anchor expr := by
  have sameCycle : ∀ members anywhere,
      foldCycle? ⟨hasDefaultExit, hasLink⟩ members source target anywhere =
        foldCycle? ⟨hasDefaultExit, other⟩ members source target anywhere := by
    intro members anywhere
    unfold foldCycle?
    congr 1
    cases source with
    | none => rfl
    | some leaving =>
        rw [Option.bind_some, Option.bind_some]
        cases isNode : leaving.node? with
        | none => simp only [membersWithCycle?, isNode]
        | some node => simp only [membersWithCycle?, isNode, same node isNode]
  induction expr generalizing anchor with
  | sequence first second ihFirst ihSecond =>
      rw [fold_sequence, fold_sequence, ihFirst, ihSecond]
      rfl
  | set members ih =>
      have sameFolds : members.map (fold ⟨hasDefaultExit, hasLink⟩ source target anchor) =
          members.map (fold ⟨hasDefaultExit, other⟩ source target anchor) :=
        List.map_congr_left fun member present => ih member present anchor
      rw [fold_set, fold_set, sameFolds, sameCycle, sameCycle]
      rfl
  | _ => rfl

end Surroundings

/-! ### Main result -/

/-- Folding an edge into a solid expression is refused exactly if the edge leaves a
reference whose owner has no leaf in the expression. What a first operand refuses, the
second one takes only for its own leaves: the anchor given to it does not admit the
source, so it might as well admit nothing. -/
theorem foldAtTop_eq_none_iff (workflow : Workflow) (resolved : ResolvedEdge) {expr : Expr}
    (solid : expr.Solid) :
    (workflow.surroundings.foldAtTop resolved.source resolved.target expr = none ↔
      ∃ leaving, resolved.source = some leaving ∧ expr.contains leaving = false) ∧
    ∀ (first second : Expr) (anchor : Anchor), first.Solid → second.Solid →
      workflow.surroundings.fold resolved.source resolved.target anchor first = none →
        (Anchor.endings first.endings).admits resolved.source = false ∧
        workflow.surroundings.fold resolved.source resolved.target
            (.endings first.endings) second =
          workflow.surroundings.fold resolved.source resolved.target (.endings []) second ∧
        ((workflow.surroundings.fold resolved.source resolved.target
            (.endings first.endings) second).isSome = true ↔
          ∃ leaving, resolved.source = some leaving ∧ second.contains leaving = true) := by
  constructor
  · have accepted := workflow.surroundings.isSome_fold resolved.source resolved.target .entry solid
    rw [Surroundings.foldAtTop, ← Option.not_isSome_iff_eq_none, accepted]
    constructor
    · intro refused
      cases isSource : resolved.source with
      | none =>
          rw [isSource] at refused
          exact absurd (Or.inl rfl) refused
      | some leaving =>
          refine ⟨leaving, rfl, ?_⟩
          rw [Bool.eq_false_iff]
          intro inside
          exact refused (Or.inr ⟨leaving, isSource, inside⟩)
    · intro missing
      obtain ⟨leaving, isSource, outside⟩ := missing
      intro accepted
      rcases accepted with admitted | ⟨other, isOther, inside⟩
      · rw [isSource] at admitted
        cases admitted
      · rw [isSource, Option.some.injEq] at isOther
        rw [← isOther, outside] at inside
        cases inside
  · intro first second anchor ofFirst ofSecond refused
    have notAdmitted := Surroundings.admits_endings_eq_false_of_fold_eq_none ofFirst refused
    refine ⟨notAdmitted, ?_, ?_⟩
    · apply Surroundings.fold_congr_anchor
      rw [notAdmitted]
      cases resolved.source <;> rfl
    · rw [workflow.surroundings.isSome_fold resolved.source resolved.target _ ofSecond,
        notAdmitted]
      simp only [Bool.false_eq_true, false_or]
      rfl

def twoCycle : Document :=
  ((((Document.ofEntrypoint "entry").addNodes ["a", "b"]).addEdge "entry" "a").addEdge "entry"
    "b").addEdge "a" "b" |>.addEdge "b" "a"

/-- The edge back from `b` is refused by `a` and taken behind it. -/
theorem foldAtTop_eq_none_iff_twoCycle :
    ∃ workflow, Workflow.load twoCycle = .ok workflow ∧
      (Expr.sequence (.node ⟨0⟩) (.node ⟨1⟩)).Solid ∧
      (workflow.surroundings.foldAtTop (some (.node ⟨1⟩)) ⟨0⟩
          (.sequence (.node ⟨0⟩) (.node ⟨1⟩)) = none ↔
        ∃ leaving, some (Reference.node ⟨1⟩) = some leaving ∧
          (Expr.sequence (.node ⟨0⟩) (.node ⟨1⟩)).contains leaving = false) ∧
      workflow.surroundings.fold (some (.node ⟨1⟩)) ⟨0⟩ .entry (.node ⟨0⟩) = none ∧
      (Anchor.endings [.node ⟨0⟩]).admits (some (.node ⟨1⟩)) = false ∧
      ((workflow.surroundings.fold (some (.node ⟨1⟩)) ⟨0⟩ (.endings [.node ⟨0⟩])
          (.node ⟨1⟩)).isSome = true ↔
        ∃ leaving, some (Reference.node ⟨1⟩) = some leaving ∧
          (Expr.node ⟨1⟩).contains leaving = true) := by
  have loads : (Workflow.load twoCycle).toOption.map (fun _ => ()) = some () := by
    decide +kernel
  obtain ⟨workflow, loaded, _⟩ := Workflow.exists_load_of_map_toOption loads
  have solid : (Expr.sequence (.node ⟨0⟩) (.node ⟨1⟩)).Solid := .sequence (.node _) (.node _)
  obtain ⟨accepted, behind⟩ :=
    foldAtTop_eq_none_iff workflow ⟨some (.node ⟨1⟩), ⟨0⟩⟩ solid
  have refused : workflow.surroundings.fold (some (.node ⟨1⟩)) ⟨0⟩ .entry (.node ⟨0⟩) = none := rfl
  obtain ⟨notAdmitted, _, taken⟩ :=
    behind (.node ⟨0⟩) (.node ⟨1⟩) .entry (.node _) (.node _) refused
  exact ⟨workflow, loaded, solid, accepted, refused, notAdmitted, taken⟩

end FlowGraph
