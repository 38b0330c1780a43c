import FlowGraph.Proofs.Building
import FlowGraph.Proofs.NodePaths
import Mathlib.Data.List.Permutation

/-!
Folding an edge where a path ends. What comes before the last node refuses the edge, and so do
the other members of a set, so the path goes on with the target. The set is then taken together
behind the target if all its paths have come there; otherwise nothing else changes.
-/

namespace FlowGraph

namespace Expr

theorem EmptyOrSolid.andThen {first second : Expr} (ofFirst : first.EmptyOrSolid)
    (ofSecond : second.EmptyOrSolid) : (first.andThen second).EmptyOrSolid := by
  rcases ofFirst with rfl | solid
  · rw [empty_andThen]
    exact ofSecond
  · rcases ofSecond with rfl | alsoSolid
    · exact Or.inr solid
    · exact Or.inr (solid.andThen alsoSolid)

theorem emptyOrSolid_path (nodes : List NodeId) : (path nodes).EmptyOrSolid := by
  by_cases inhabited : nodes = []
  · rw [inhabited]
    exact Or.inl rfl
  · exact Or.inr (solid_path inhabited)

end Expr

namespace Surroundings

open FlowGraph.Expr

variable {surroundings : Surroundings} {source target node : NodeId} {leaving : Reference}
  {anchor : Anchor}

/-! ### Behind what refuses the edge -/

private theorem fold_eq_none {expr : Expr} (solid : expr.Solid)
    (refused : anchor.admits (some leaving) = false) (outside : expr.contains leaving = false) :
    surroundings.fold (some leaving) target anchor expr = none := by
  rw [← Option.not_isSome_iff_eq_none, isSome_fold surroundings _ _ _ solid]
  rintro (admitted | ⟨other, same, inside⟩)
  · rw [refused] at admitted
    cases admitted
  · cases same
    rw [outside] at inside
    cases inside

/-- An edge that leaves nothing in the first part of a sequence is folded into the second part,
as if that stood alone. -/
theorem fold_andThen {first second : Expr} (formed : first.EmptyOrSolid) (isStep : second.IsStep)
    (refused : anchor.admits (some leaving) = false) (outside : first.contains leaving = false) :
    surroundings.fold (some leaving) target anchor (first.andThen second) =
      (surroundings.fold (some leaving) target anchor second).map first.andThen := by
  rcases formed with rfl | solid
  · have unchanged : Expr.empty.andThen = id := funext empty_andThen
    rw [empty_andThen, unchanged, Option.map_id_fun, id_eq]
  · have atFirst : surroundings.fold (some leaving) target anchor first = none :=
      fold_eq_none solid refused outside
    have alsoRefused := admits_endings_eq_false_of_fold_eq_none solid atFirst
    rw [andThen_of_isStep solid.ne_empty isStep, fold_sequence, atFirst,
      fold_congr_anchor (refused.trans alsoRefused.symm)]

/-- An edge that leaves the last node of a sequence, and nothing before it, is put behind it. -/
theorem fold_last {first : Expr} (formed : first.EmptyOrSolid)
    (refused : anchor.admits (some (.node source)) = false)
    (outside : first.contains (.node source) = false) :
    surroundings.fold (some (.node source)) target anchor (first.andThen (.node source)) =
      some ((first.andThen (.node source)).andThen (.node target)) := by
  have atLeaf : surroundings.fold (some (.node source)) target anchor (.node source) =
      some (link (.node source) target) := by
    unfold fold foldAtLeaf
    dsimp only
    rw [if_pos rfl]
  rw [fold_andThen formed (isStep_node source) refused outside, atLeaf, Option.map_some,
    andThen_assoc]
  rfl

/-! ### Paths -/

theorem contains_path_eq_false {nodes : List NodeId} (outside : node ∉ nodes) :
    (path nodes).contains (.node node) = false := by
  rw [Bool.eq_false_iff, ne_eq, contains_path]
  exact outside

private theorem fold_path {front : List NodeId}
    (refused : anchor.admits (some (.node source)) = false) (outside : source ∉ front) :
    surroundings.fold (some (.node source)) target anchor (path (front ++ [source])) =
      some (path (front ++ [source, target])) := by
  have extended : front ++ [source, target] = (front ++ [source]) ++ [target] := by simp
  rw [extended, path_concat (front ++ [source]), path_concat front]
  exact fold_last (emptyOrSolid_path front) refused (contains_path_eq_false outside)

/-! ### One member of a set -/

private theorem findIdx?_only {folds : List (Option Expr)} {new : Expr}
    {front back : List (Option Expr)}
    (isSplit : folds = front ++ some new :: back) (others : ∀ fold ∈ front ++ back, fold = none)
    {test : Option Expr → Bool} (notNone : test none = false) :
    folds.findIdx? test = if test (some new) then some front.length else none := by
  have noneOf : ∀ part ⊆ front ++ back, part.findIdx? test = none := by
    intro part inside
    rw [List.findIdx?_eq_none_iff]
    intro fold present
    rw [others fold (inside present)]
    exact notNone
  rw [isSplit, List.findIdx?_append, noneOf front (List.subset_append_left _ _), Option.none_or,
    List.findIdx?_cons]
  split
  · simp
  · rw [noneOf back (List.subset_append_right _ _)]
    rfl

private theorem withBestFold?_only {fold : Expr → Option Expr} {front back : List Expr}
    {member new : Expr}
    (taken : fold member = some new) (others : ∀ other ∈ front ++ back, fold other = none) :
    withBestFold? (front ++ member :: back) ((front ++ member :: back).map fold) =
      some (front ++ new :: back) := by
  have isSplit :
      (front ++ member :: back).map fold = front.map fold ++ some new :: back.map fold := by
    rw [List.map_append, List.map_cons, taken]
  have noneElse : ∀ fold' ∈ front.map fold ++ back.map fold, fold' = none := by
    intro fold' present
    rw [← List.map_append] at present
    obtain ⟨other, isOther, rfl⟩ := List.mem_map.mp present
    exact others other isOther
  have best : bestFold? ((front ++ member :: back).map fold) = some front.length := by
    rw [bestFold?, findIdx?_only isSplit noneElse rfl, findIdx?_only isSplit noneElse rfl,
      List.length_map]
    split <;> rfl
  rw [withBestFold?, best, Option.bind_some, isSplit,
    List.getElem?_append_right (Nat.le_of_eq (List.length_map fold)), List.length_map, Nat.sub_self]
  simp

private theorem foldCycle?_eq_none {members : List Expr} {anywhere : Bool}
    (noCycle : (∀ member ∈ members, member.contains (.node target) = false) ∨
      source ≠ target ∧ surroundings.hasLink target source = false) :
    surroundings.foldCycle? members (some (.node source)) target anywhere = none := by
  have noMembers :
      surroundings.membersWithCycle? members (.node source) target anywhere = none := by
    unfold membersWithCycle?
    dsimp only [Reference.node?]
    rcases noCycle with isNew | ⟨different, noLink⟩
    · have absent : members.any (Expr.contains (.node target)) = false := by
        rw [List.any_eq_false]
        intro member present
        rw [isNew member present]
        exact Bool.false_ne_true
      have notBoth : ¬(members.any (Expr.contains (.node target)) &&
          members.any (Expr.contains (Reference.node source).owner)) = true := by
        rw [absent, Bool.false_and]
        exact Bool.false_ne_true
      exact if_neg notBoth
    · rw [if_neg different, noLink, if_neg Bool.false_ne_true, ite_self]
  rw [foldCycle?, Option.bind_some, noMembers, Option.map_none]

private theorem endsAt_eq_false {expr : Expr} (solid : expr.Solid)
    (outside : expr.contains (.node node) = false) : endsAt (.node node) expr = false := by
  rw [Bool.eq_false_iff]
  intro ends
  have isExit := (mem_exits_of_endsAt solid ends).mpr rfl
  rw [contains_of_mem_exits isExit rfl] at outside
  cases outside

private theorem foldAtSharedEnd?_eq_none {front back : List Expr} (member : Expr)
    (others : ∀ other ∈ front ++ back, endsAt (.node source) other = false) :
    surroundings.foldAtSharedEnd? (front ++ member :: back) (some (.node source)) target =
      none := by
  have noneIn : ∀ part ⊆ front ++ back, part.filter (endsAt (.node source)) = [] := by
    intro part inside
    rw [List.filter_eq_nil_iff]
    intro other present
    rw [others other (inside present)]
    exact Bool.false_ne_true
  have few : ((front ++ member :: back).filter (endsAt (.node source))).length < 2 := by
    rw [List.filter_append, List.filter_cons, noneIn front (List.subset_append_left _ _),
      noneIn back (List.subset_append_right _ _)]
    split <;> simp
  rw [foldAtSharedEnd?]
  exact if_pos few

/-! ### One path of several -/

private theorem fold_way {front back : List (List NodeId)} {nodes : List NodeId}
    (refused : anchor.admits (some (.node source)) = false) (atEnd : source ∉ nodes)
    (others : ∀ way ∈ front ++ back, way ≠ [] ∧ source ∉ way)
    (noCycle : (∀ way ∈ front ++ (nodes ++ [source]) :: back, target ∉ way) ∨
      source ≠ target ∧ surroundings.hasLink target source = false) :
    surroundings.fold (some (.node source)) target anchor
        (.set ((front ++ (nodes ++ [source]) :: back).map path)) =
      some (surroundings.compactSet target
        ((front ++ (nodes ++ [source, target]) :: back).map path)) := by
  have refuse : ∀ other ∈ front.map path ++ back.map path,
      surroundings.fold (some (.node source)) target anchor other = none ∧
        endsAt (.node source) other = false := by
    intro other present
    rw [← List.map_append] at present
    obtain ⟨way, isWay, rfl⟩ := List.mem_map.mp present
    obtain ⟨inhabited, outside⟩ := others way isWay
    have notContained := contains_path_eq_false outside
    exact ⟨fold_eq_none (solid_path inhabited) refused notContained,
      endsAt_eq_false (solid_path inhabited) notContained⟩
  have newTarget : (∀ member ∈ (front ++ (nodes ++ [source]) :: back).map path,
        member.contains (.node target) = false) ∨
      source ≠ target ∧ surroundings.hasLink target source = false := by
    refine noCycle.imp_left ?_
    intro isNew member present
    obtain ⟨way, isWay, rfl⟩ := List.mem_map.mp present
    exact contains_path_eq_false (isNew way isWay)
  have best := withBestFold?_only (fold_path refused atEnd) fun other present =>
    (refuse other present).1
  rw [fold_set, foldCycle?_eq_none newTarget, Option.none_or, List.map_append, List.map_cons,
    foldAtSharedEnd?_eq_none _ fun other present => (refuse other present).2, Option.none_or,
    best, Option.map_some, Option.some_or, List.map_append, List.map_cons]

theorem foldAtTop_way {front : Expr} {nodes : List NodeId} {ways others : List (List NodeId)}
    (formed : front.EmptyOrSolid) (areWays : ways.Perm ((nodes ++ [source]) :: others))
    (inFront : front.contains (.node source) = false) (atEnd : source ∉ nodes)
    (apart : ∀ way ∈ others, way ≠ [] ∧ source ∉ way)
    (noCycle : (∀ way ∈ ways, target ∉ way) ∨
      source ≠ target ∧ surroundings.hasLink target source = false) :
    ∃ extended : List (List NodeId), extended.Perm ((nodes ++ [source, target]) :: others) ∧
      surroundings.foldAtTop (some (.node source)) target (front.andThen (.set (ways.map path))) =
        some (front.andThen (surroundings.compactSet target (extended.map path))) := by
  obtain ⟨before, after, rfl⟩ := List.append_of_mem (areWays.mem_iff.mpr List.mem_cons_self)
  have areOthers : (before ++ after).Perm others :=
    List.perm_cons (nodes ++ [source]) |>.mp (List.perm_middle.symm.trans areWays)
  refine ⟨before ++ (nodes ++ [source, target]) :: after,
    List.perm_middle.trans (areOthers.cons _), ?_⟩
  have refuse : ∀ way ∈ before ++ after, way ≠ [] ∧ source ∉ way := fun way isWay =>
    apart way (areOthers.mem_iff.mp isWay)
  rw [foldAtTop, fold_andThen formed (isStep_set _) rfl inFront,
    fold_way rfl atEnd refuse noCycle, Option.map_some]

theorem ofMembers_of_two_le {members : List Expr} (several : 2 ≤ members.length) :
    ofMembers members = .set members := by
  match members with
  | [] => cases several
  | [_] => exact absurd several (Nat.not_succ_le_self 1)
  | _ :: _ :: _ => rfl

theorem compactSet_apart {ways : List (List NodeId)} {way : List NodeId}
    (several : 2 ≤ ways.length) (startApart : StartApart ways) (isWay : way ∈ ways)
    (outside : target ∉ way) :
    surroundings.compactSet target (ways.map path) = .set (ways.map path) := by
  rw [compactSet, startApart.flatten_paths,
    ofMembers_of_two_le (several.trans_eq (List.length_map path).symm), compact,
    startApart.shareBeginning?_paths, shareEnding?_paths_of_not_mem isWay outside]
  rfl

/-- When the last path comes to the target, all paths are taken together before it. -/
theorem compactSet_crossings {crossings : List Crossing} {behind : List NodeId}
    (several : 2 ≤ crossings.length) (startApart : StartApart (crossings.map Crossing.before))
    (outside : ∀ crossing ∈ crossings, target ∉ crossing.before)
    (farthest : longest (crossings.map fun crossing => (target :: crossing.behind).map .node) =
      (target :: behind).map .node)
    (within : ∀ crossing ∈ crossings, crossing.behind <+: behind) :
    surroundings.compactSet target ((crossings.map (Crossing.way target)).map path) =
      (Expr.set ((crossings.map Crossing.before).map path)).andThen (path (target :: behind)) := by
  have waysApart : StartApart (crossings.map (Crossing.way target)) := startApart.ways target
  have severalWays : 2 ≤ ((crossings.map (Crossing.way target)).map path).length := by
    rw [List.length_map, List.length_map]
    exact several
  have severalBefore : 2 ≤ ((crossings.map Crossing.before).map path).length := by
    rw [List.length_map, List.length_map]
    exact several
  rw [compactSet, waysApart.flatten_paths, ofMembers_of_two_le severalWays, compact,
    waysApart.shareBeginning?_paths,
    shareEnding?_crossings several startApart outside farthest within, Option.none_or,
    Option.getD_some, ofMembers_of_two_le severalBefore]

/-- Two paths are taken together behind the target, and with them what one of them has there. -/
theorem compactSet_meeting {left right behind : List NodeId} {ways : List (List NodeId)}
    (areWays : ways.Perm [left ++ target :: behind, right ++ [target]])
    (apart : StartApart [left, right]) (beforeLeft : target ∉ left) (beforeRight : target ∉ right) :
    ∃ branches : List (List NodeId), branches.Perm [left, right] ∧
      surroundings.compactSet target (ways.map path) =
        (Expr.set (branches.map path)).andThen (path (target :: behind)) := by
  rcases List.perm_pair.mp areWays with rfl | rfl
  · refine ⟨[left, right], .refl _, ?_⟩
    apply @compactSet_crossings surroundings target [⟨left, behind⟩, ⟨right, []⟩] behind
      (Nat.le_refl 2) apart
    · simpa using ⟨beforeLeft, beforeRight⟩
    · simp [longest]
    · simp
  · refine ⟨[right, left], .swap _ _ _, ?_⟩
    apply @compactSet_crossings surroundings target [⟨right, []⟩, ⟨left, behind⟩] behind
      (Nat.le_refl 2) (apart.perm (.swap _ _ _))
    · simpa using ⟨beforeRight, beforeLeft⟩
    · cases behind <;> simp [longest]
    · simp

/-! ### A new branch -/

theorem joinFirst_branch {front second : Expr} (leans : front.LeansLeft) (isStep : second.IsStep)
    (different : second ≠ .node target) :
    surroundings.joinFirst front second (front.andThen (.node target)) =
      front.andThen (flatten surroundings.hasDefaultExit [second, .node target]) := by
  rw [joinFirst, andThen_of_isStep leans.ne_empty (isStep_node target),
    andThen_of_isStep leans.ne_empty isStep, flatten_sequences]
  · dsimp only
    rw [shareBeginning?_branches leans isStep (isStep_node target) different]
  · intro same
    exact different (Expr.sequence.inj same).2

theorem foldAtTop_path {nodes : List NodeId} (distinct : nodes.Nodup) :
    surroundings.foldAtTop (nodes.getLast?.map .node) target (path nodes) =
      some (path (nodes ++ [target])) := by
  rcases List.eq_nil_or_concat nodes with rfl | ⟨front, last, rfl⟩
  · rfl
  · rw [List.concat_eq_append] at distinct ⊢
    have outside : last ∉ front := by
      intro inFront
      exact List.disjoint_of_nodup_append distinct inFront (List.mem_singleton_self last)
    rw [List.getLast?_concat, Option.map_some, List.append_assoc]
    exact fold_path rfl outside

/-- A second edge from the end of a path makes a set of the two nodes behind it. -/
theorem foldAtTop_fork {nodes : List NodeId} {first : NodeId} (distinct : nodes.Nodup)
    (different : first ≠ target) :
    surroundings.foldAtTop (nodes.getLast?.map .node) target (path (nodes ++ [first])) =
      some ((path nodes).andThen (.set [.node first, .node target])) := by
  have startApart : StartApart [[first], [target]] :=
    ⟨by simp, by simpa using different⟩
  have beside : flatten surroundings.hasDefaultExit [.node first, .node target] =
      .set [.node first, .node target] := startApart.flatten_paths
  by_cases inhabited : nodes = []
  · rw [inhabited]
    exact congrArg some beside
  · have atFirst : surroundings.foldAtTop (nodes.getLast?.map .node) target (path nodes) =
        some (path (nodes ++ [target])) := foldAtTop_path distinct
    rw [foldAtTop] at atFirst ⊢
    rw [path_concat_of_ne_nil inhabited, fold_sequence, atFirst]
    dsimp only
    rw [path_concat nodes target, joinFirst_branch (leansLeft_path inhabited) (isStep_node first)
      fun same => different (Expr.node.inj same), beside]

end Surroundings

end FlowGraph
