import FlowGraph.Expr.Order
import FlowGraph.Proofs.Solid
import Mathlib.Logic.Relation

/-!
Canonical forms. The order on expressions is total, and only equal expressions are equal in
it, so a list can be put in order in one way only. Hence two expressions have the same
canonical form exactly if one becomes the other when members of sets change places.
-/

namespace FlowGraph.Expr

/-! ### Expressions spelled out -/

mutual

/-- An expression as a list of numbers: the rank of its kind, and behind it its ids or what
it is made of. -/
def spelling : Expr → List Nat
  | .empty => [0]
  | .node nodeId => [1, nodeId.number]
  | .port nodeId portId => [2, nodeId.number, portId.number]
  | .trigger triggerId => [3, triggerId.number]
  | .sequence first second => 4 :: (first.spelling ++ second.spelling)
  | .set members => 5 :: spellingOfAll members

/-- A one announces each member and a zero the end, so that a list comes before all lists
that begin with it. -/
def spellingOfAll : List Expr → List Nat
  | [] => [0]
  | member :: members => 1 :: (member.spelling ++ spellingOfAll members)

end

private theorem exists_spelling_eq_cons (expr : Expr) :
    ∃ rest, expr.spelling = expr.rank :: rest := by
  cases expr <;> exact ⟨_, rfl⟩

private theorem order_of_rank_ne {left right : Expr} (different : left.rank ≠ right.rank) :
    left.order right = compare left.rank right.rank := by
  cases left <;> cases right <;> first | rfl | exact absurd rfl different

private theorem compare_then_of_ne {left right : Nat} (different : left ≠ right) (next : Ordering) :
    (compare left right).then next = compare left right := by
  cases outcome : compare left right with
  | lt => rfl
  | eq => exact absurd (Nat.compare_eq_eq.mp outcome) different
  | gt => rfl

private theorem compare_spelling_append_of_rank_ne {left right : Expr}
    (different : left.rank ≠ right.rank) (leftRest rightRest : List Nat) :
    compare (left.spelling ++ leftRest) (right.spelling ++ rightRest) =
      (left.order right).then (compare leftRest rightRest) := by
  obtain ⟨leftTail, leftIs⟩ := exists_spelling_eq_cons left
  obtain ⟨rightTail, rightIs⟩ := exists_spelling_eq_cons right
  rw [leftIs, rightIs, List.cons_append, List.cons_append, List.compare_cons_cons,
    order_of_rank_ne different, compare_then_of_ne different, compare_then_of_ne different]

private theorem compare_spellingOfAll_append {members : List Expr}
    (compared : ∀ member ∈ members, ∀ (other : Expr) (leftRest rightRest : List Nat),
      compare (member.spelling ++ leftRest) (other.spelling ++ rightRest) =
        (member.order other).then (compare leftRest rightRest))
    (others : List Expr) (leftRest rightRest : List Nat) :
    compare (spellingOfAll members ++ leftRest) (spellingOfAll others ++ rightRest) =
      (orderMembers members others).then (compare leftRest rightRest) := by
  induction members generalizing others with
  | nil =>
      cases others with
      | nil => exact List.compare_cons_cons
      | cons other others => rfl
  | cons member members ih =>
      cases others with
      | nil => rfl
      | cons other others =>
          have behind := ih (fun later present =>
            compared later (List.mem_cons_of_mem member present)) others
          rw [spellingOfAll, spellingOfAll, List.cons_append, List.cons_append,
            List.append_assoc, List.append_assoc, List.compare_cons_cons,
            Std.ReflOrd.compare_self, Ordering.eq_then,
            compared member List.mem_cons_self, behind, orderMembers, Ordering.then_assoc]

/-- Comparing two expressions is comparing their spellings. No spelling begins with another
one, so only those of equal expressions leave it to what is behind them. -/
theorem compare_spelling_append (left right : Expr) (leftRest rightRest : List Nat) :
    compare (left.spelling ++ leftRest) (right.spelling ++ rightRest) =
      (left.order right).then (compare leftRest rightRest) := by
  induction left generalizing right leftRest rightRest with
  | empty =>
      cases right with
      | empty => exact List.compare_cons_cons
      | _ => exact compare_spelling_append_of_rank_ne (by simp [rank]) leftRest rightRest
  | node nodeId =>
      cases right with
      | node other => simp [spelling, order]
      | _ => exact compare_spelling_append_of_rank_ne (by simp [rank]) leftRest rightRest
  | port nodeId portId =>
      cases right with
      | port otherNode otherPort => simp [spelling, order, Ordering.then_assoc]
      | _ => exact compare_spelling_append_of_rank_ne (by simp [rank]) leftRest rightRest
  | trigger triggerId =>
      cases right with
      | trigger other => simp [spelling, order]
      | _ => exact compare_spelling_append_of_rank_ne (by simp [rank]) leftRest rightRest
  | sequence first second ihFirst ihSecond =>
      cases right with
      | sequence otherFirst otherSecond =>
          rw [spelling, spelling, List.cons_append, List.cons_append, List.append_assoc,
            List.append_assoc, List.compare_cons_cons, Std.ReflOrd.compare_self,
            Ordering.eq_then, ihFirst, ihSecond, order, Ordering.then_assoc]
      | _ => exact compare_spelling_append_of_rank_ne (by simp [rank]) leftRest rightRest
  | set members ih =>
      cases right with
      | set others =>
          rw [spelling, spelling, List.cons_append, List.cons_append, List.compare_cons_cons,
            Std.ReflOrd.compare_self, Ordering.eq_then, compare_spellingOfAll_append ih, order]
      | _ => exact compare_spelling_append_of_rank_ne (by simp [rank]) leftRest rightRest

private theorem compare_spelling (left right : Expr) :
    compare left.spelling right.spelling = left.order right := by
  have compared := compare_spelling_append left right [] []
  rwa [List.append_nil, List.append_nil, List.compare_nil_nil, Ordering.then_eq] at compared

/-! ### A total order -/

instance : Std.TransCmp order where
  eq_swap := by
    intro left right
    rw [← compare_spelling, ← compare_spelling]
    exact Std.OrientedOrd.eq_swap
  isLE_trans := by
    intro first second third
    rw [← compare_spelling, ← compare_spelling, ← compare_spelling]
    exact Std.TransOrd.isLE_trans

private theorem rank_eq_of_order {left right : Expr} (alike : left.order right = .eq) :
    left.rank = right.rank := by
  by_cases sameKind : left.rank = right.rank
  · exact sameKind
  · rw [order_of_rank_ne sameKind] at alike
    exact Nat.compare_eq_eq.mp alike

private theorem eq_of_orderMembers {members : List Expr}
    (decided : ∀ member ∈ members, ∀ other, member.order other = .eq → member = other)
    {others : List Expr} (alike : orderMembers members others = .eq) : members = others := by
  induction members generalizing others with
  | nil =>
      cases others with
      | nil => rfl
      | cons _ _ => cases alike
  | cons member members ih =>
      cases others with
      | nil => cases alike
      | cons other others =>
          rw [orderMembers, Ordering.then_eq_eq] at alike
          rw [decided member List.mem_cons_self other alike.1,
            ih (fun later present => decided later (List.mem_cons_of_mem member present)) alike.2]

private theorem eq_of_order {left right : Expr} (alike : left.order right = .eq) :
    left = right := by
  -- The kinds agree, so each case is left with one of its own kind on the right.
  have sameKind := rank_eq_of_order alike
  induction left generalizing right with
  | empty =>
      cases right <;> cases sameKind
      rfl
  | node nodeId =>
      cases right <;> cases sameKind
      exact congrArg (fun number => node ⟨number⟩) (Nat.compare_eq_eq.mp alike)
  | trigger triggerId =>
      cases right <;> cases sameKind
      exact congrArg (fun number => trigger ⟨number⟩) (Nat.compare_eq_eq.mp alike)
  | port nodeId portId =>
      cases right <;> cases sameKind
      obtain ⟨sameNode, samePort⟩ := Ordering.then_eq_eq.mp alike
      exact congrArg₂ (fun nodeNumber portNumber => port ⟨nodeNumber⟩ ⟨portNumber⟩)
        (Nat.compare_eq_eq.mp sameNode) (Nat.compare_eq_eq.mp samePort)
  | sequence first second ihFirst ihSecond =>
      cases right <;> cases sameKind
      obtain ⟨sameFirst, sameSecond⟩ := Ordering.then_eq_eq.mp alike
      rw [ihFirst sameFirst (rank_eq_of_order sameFirst),
        ihSecond sameSecond (rank_eq_of_order sameSecond)]
  | set members ih =>
      cases right <;> cases sameKind
      rw [eq_of_orderMembers (fun member present other same =>
        ih member present same (rank_eq_of_order same)) alike]

instance : Std.LawfulEqCmp order where
  compare_self := by
    intro expr
    rw [← compare_spelling]
    exact Std.ReflOrd.compare_self
  eq_of_compare := eq_of_order

/-! ### Lists in order -/

private theorem precedes_trans {first second third : Expr} (before : first.precedes second = true)
    (behind : second.precedes third = true) : first.precedes third = true :=
  Std.TransCmp.isLE_trans before behind

private theorem precedes_antisymm {left right : Expr} (before : left.precedes right = true)
    (behind : right.precedes left = true) : left = right :=
  eq_of_order (Std.OrientedCmp.isLE_antisymm before behind)

private theorem precedes_of_not_precedes {left right : Expr}
    (other : ¬ left.precedes right = true) : right.precedes left = true := by
  have strictly : right.order left = .lt := Std.OrientedCmp.lt_of_not_isLE other
  rw [precedes, strictly]
  rfl

private theorem perm_insertInOrder (expr : Expr) (exprs : List Expr) :
    (insertInOrder expr exprs).Perm (expr :: exprs) := by
  induction exprs with
  | nil => exact .refl _
  | cons next rest ih =>
      rw [insertInOrder]
      split
      · exact .refl _
      · exact (ih.cons next).trans (.swap expr next rest)

theorem perm_sorted (exprs : List Expr) : (sorted exprs).Perm exprs := by
  induction exprs with
  | nil => exact .refl _
  | cons expr rest ih => exact (perm_insertInOrder expr (sorted rest)).trans (ih.cons expr)

def InOrder (exprs : List Expr) : Prop :=
  exprs.Pairwise fun left right => left.precedes right = true

private theorem inOrder_insertInOrder (expr : Expr) {exprs : List Expr} (ordered : InOrder exprs) :
    InOrder (insertInOrder expr exprs) := by
  induction ordered with
  | nil => exact List.pairwise_singleton _ expr
  | @cons next rest first others ih =>
      rw [insertInOrder]
      split
      · rename_i before
        refine .cons ?_ (.cons first others)
        intro later present
        rcases List.mem_cons.mp present with rfl | inRest
        · exact before
        · exact precedes_trans before (first later inRest)
      · rename_i behind
        refine .cons ?_ ih
        intro later present
        rcases List.mem_cons.mp ((perm_insertInOrder expr rest).mem_iff.mp present) with
          rfl | inRest
        · exact precedes_of_not_precedes behind
        · exact first later inRest

private theorem inOrder_sorted (exprs : List Expr) : InOrder (sorted exprs) := by
  induction exprs with
  | nil => exact .nil
  | cons expr rest ih => exact inOrder_insertInOrder expr ih

private theorem sorted_eq_of_perm {exprs others : List Expr} (perm : exprs.Perm others) :
    sorted exprs = sorted others := by
  apply List.Perm.eq_of_pairwise (fun _ _ _ _ => precedes_antisymm) (inOrder_sorted exprs)
    (inOrder_sorted others)
  exact (perm_sorted exprs).trans (perm.trans (perm_sorted others).symm)

private theorem canonicalMembers_eq_map (members : List Expr) :
    canonicalMembers members = members.map canonical := by
  induction members with
  | nil => rfl
  | cons member members ih => rw [canonicalMembers, ih, List.map_cons]

theorem canonical_set (members : List Expr) :
    (Expr.set members).canonical = .set (sorted (members.map canonical)) := by
  rw [canonical, canonicalMembers_eq_map]

private theorem canonical_eq_empty_iff {expr : Expr} : expr.canonical = .empty ↔ expr = .empty := by
  cases expr <;> simp [canonical]

theorem canonical_andThen (first second : Expr) :
    (first.andThen second).canonical = first.canonical.andThen second.canonical := by
  by_cases vacant : first = .empty
  · rw [vacant, empty_andThen]
    exact (empty_andThen _).symm
  have stillOccupied : ∀ {expr : Expr}, expr ≠ .empty → expr.canonical ≠ .empty :=
    mt canonical_eq_empty_iff.mp
  induction second generalizing first with
  | empty => rfl
  | sequence second third ihSecond ihThird =>
      rw [andThen_sequence second third vacant, ihThird _ (andThen_ne_empty_left second vacant),
        ihSecond _ vacant, canonical, andThen_sequence _ _ (stillOccupied vacant)]
  | _ =>
      rw [andThen_of_isStep vacant ⟨Expr.noConfusion, rfl⟩]
      exact (andThen_of_isStep (stillOccupied vacant) ⟨Expr.noConfusion, rfl⟩).symm

/-! ### Members that change places -/

/-- In one set, at any depth, the members change places. -/
inductive Reorders : Expr → Expr → Prop where
  | here {members others : List Expr} (perm : members.Perm others) :
      Reorders (.set members) (.set others)
  | first {first other : Expr} (second : Expr) (inside : Reorders first other) :
      Reorders (.sequence first second) (.sequence other second)
  | second (first : Expr) {second other : Expr} (inside : Reorders second other) :
      Reorders (.sequence first second) (.sequence first other)
  | member (front : List Expr) {member other : Expr} (back : List Expr)
      (inside : Reorders member other) :
      Reorders (.set (front ++ member :: back)) (.set (front ++ other :: back))

theorem Reorders.symm {left right : Expr} (step : Reorders left right) : Reorders right left := by
  induction step with
  | here perm => exact .here perm.symm
  | first second _ ih => exact .first second ih
  | second first _ ih => exact .second first ih
  | member front back _ ih => exact .member front back ih

instance : Std.Symm Reorders := ⟨fun _ _ => Reorders.symm⟩

theorem Reorders.canonical_eq {left right : Expr} (step : Reorders left right) :
    left.canonical = right.canonical := by
  induction step with
  | here perm => rw [canonical_set, canonical_set, sorted_eq_of_perm (perm.map canonical)]
  | first second _ ih => rw [canonical, canonical, ih]
  | second first _ ih => rw [canonical, canonical, ih]
  | member front back _ ih =>
      rw [canonical_set, canonical_set, List.map_append, List.map_append, List.map_cons,
        List.map_cons, ih]

open Relation (ReflTransGen)

private theorem reorders_sequence {first newFirst second newSecond : Expr}
    (inFirst : ReflTransGen Reorders first newFirst)
    (inSecond : ReflTransGen Reorders second newSecond) :
    ReflTransGen Reorders (.sequence first second) (.sequence newFirst newSecond) := by
  have one : ReflTransGen Reorders (.sequence first second) (.sequence newFirst second) :=
    inFirst.lift (fun expr => Expr.sequence expr second) fun _ _ step =>
      Reorders.first second step
  have two : ReflTransGen Reorders (.sequence newFirst second) (.sequence newFirst newSecond) :=
    inSecond.lift (Expr.sequence newFirst) fun _ _ step => Reorders.second newFirst step
  exact one.trans two

private theorem reorders_set_map (front : List Expr) {members : List Expr} {change : Expr → Expr}
    (each : ∀ member ∈ members, ReflTransGen Reorders member (change member)) :
    ReflTransGen Reorders (.set (front ++ members)) (.set (front ++ members.map change)) := by
  -- The members are reordered one after the other, and join those in front.
  induction members generalizing front with
  | nil => exact .refl
  | cons member members ih =>
      have one : ReflTransGen Reorders (.set (front ++ member :: members))
          (.set (front ++ change member :: members)) :=
        (each member List.mem_cons_self).lift (fun expr => Expr.set (front ++ expr :: members))
          fun _ _ step => Reorders.member front members step
      have others := ih (front ++ [change member]) fun later present =>
        each later (List.mem_cons_of_mem member present)
      rw [List.append_assoc, List.append_assoc] at others
      exact one.trans others

/-- An expression becomes its canonical form when members of sets change places. -/
theorem reorders_canonical (expr : Expr) : ReflTransGen Reorders expr expr.canonical := by
  induction expr with
  | sequence first second ihFirst ihSecond => exact reorders_sequence ihFirst ihSecond
  | set members ih =>
      rw [canonical_set]
      exact (reorders_set_map [] ih).tail (.here (perm_sorted _).symm)
  | _ => exact .refl

private theorem canonical_eq_of_reorders {left right : Expr}
    (steps : ReflTransGen Reorders left right) : left.canonical = right.canonical := by
  induction steps with
  | refl => rfl
  | tail _ step ih => exact ih.trans step.canonical_eq

/-! ### Main result -/

/-- Two expressions have the same canonical form exactly if one becomes the other when members
of sets change places, at any depth and as often as it takes. A canonical form is its own one,
and the order behind it is total and tells all expressions apart. -/
theorem canonical_eq_iff_reorders (left right : Expr) :
    (left.canonical = right.canonical ↔ ReflTransGen Reorders left right) ∧
      left.canonical.canonical = left.canonical ∧
      Std.TransCmp order ∧ Std.LawfulEqCmp order := by
  refine ⟨⟨?_, canonical_eq_of_reorders⟩, ?_, inferInstance, inferInstance⟩
  · intro same
    have back : ReflTransGen Reorders right.canonical right :=
      Std.Symm.symm _ _ (reorders_canonical right)
    rw [← same] at back
    exact (reorders_canonical left).trans back
  · exact (canonical_eq_of_reorders (reorders_canonical left)).symm

/-- A sequence comes before a set, and repeated members stay. -/
example : (Expr.set [.set [.node ⟨3⟩, .node ⟨1⟩, .node ⟨3⟩],
      .sequence (.node ⟨0⟩) (.node ⟨2⟩)]).canonical =
    .set [.sequence (.node ⟨0⟩) (.node ⟨2⟩), .set [.node ⟨1⟩, .node ⟨3⟩, .node ⟨3⟩]] := by
  decide

end FlowGraph.Expr
