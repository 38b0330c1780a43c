import FlowGraph.Proofs.Chains
import FlowGraph.Proofs.StoredLeaves
import Mathlib.Data.List.Induction
import Mathlib.Data.List.Pairwise
import Mathlib.Data.List.TakeWhile

/-!
Paths of nodes, and sets of them. Paths that start at different nodes stay side by side when
they are put into a flat set, and have no beginning in common. What they have in common from a
node on is taken out once they have all come to that node, and not before.
-/

namespace FlowGraph.Expr

variable {hasDefaultExit : NodeId → Bool}

theorem isStep_node (node : NodeId) : (Expr.node node).IsStep := ⟨Expr.noConfusion, rfl⟩

theorem isStep_set (members : List Expr) : (Expr.set members).IsStep := ⟨Expr.noConfusion, rfl⟩

theorem exists_front_and_last {nodes : List NodeId} (inhabited : nodes ≠ []) :
    ∃ front last, nodes = front ++ [last] :=
  ⟨_, _, (List.dropLast_append_getLast inhabited).symm⟩

def path (nodes : List NodeId) : Expr := chain (nodes.map .node)

/-! ### One path -/

@[simp] theorem path_singleton (node : NodeId) : path [node] = .node node := rfl

theorem path_append (front back : List NodeId) :
    path (front ++ back) = (path front).andThen (path back) := by
  rw [path, List.map_append, chain_append]
  rfl

theorem path_concat (front : List NodeId) (last : NodeId) :
    path (front ++ [last]) = (path front).andThen (.node last) :=
  path_append front [last]

theorem solid_path {nodes : List NodeId} (inhabited : nodes ≠ []) : (path nodes).Solid := by
  apply solid_chain (mt List.map_eq_nil_iff.mp inhabited)
  intro step present
  obtain ⟨node, _, rfl⟩ := List.mem_map.mp present
  exact .node node

theorem leansLeft_path {nodes : List NodeId} (inhabited : nodes ≠ []) : (path nodes).LeansLeft := by
  apply leansLeft_chain (mt List.map_eq_nil_iff.mp inhabited)
  intro step present
  obtain ⟨node, _, rfl⟩ := List.mem_map.mp present
  exact isStep_node node

private theorem steps_path (nodes : List NodeId) : (path nodes).steps = nodes.map .node := by
  induction nodes with
  | nil => rfl
  | cons first rest ih =>
      rw [path, List.map_cons, chain_cons, steps_andThen]
      exact congrArg (Expr.node first :: ·) ih

private theorem injective_path : Function.Injective path := by
  intro left right same
  have sameSteps := congrArg steps same
  rw [steps_path, steps_path] at sameSteps
  exact List.map_injective_iff.mpr (fun _ _ equal => Expr.node.inj equal) sameSteps

private theorem leaves_path (nodes : List NodeId) : (path nodes).leaves = nodes.map .node := by
  induction nodes with
  | nil => rfl
  | cons first rest ih =>
      rw [path, List.map_cons, chain_cons, leaves_andThen]
      exact congrArg (Reference.node first :: ·) ih

theorem path_concat_of_ne_nil {front : List NodeId} (inhabited : front ≠ []) (last : NodeId) :
    path (front ++ [last]) = .sequence (path front) (.node last) := by
  rw [path_concat, andThen_of_isStep (solid_path inhabited).ne_empty (isStep_node last)]

private theorem spread_path {nodes : List NodeId} (inhabited : nodes ≠ []) :
    (path nodes).spread = [path nodes] := by
  rcases List.eq_nil_or_concat nodes with rfl | ⟨front, last, rfl⟩
  · exact absurd rfl inhabited
  · by_cases alone : front = []
    · rw [alone]
      rfl
    · rw [List.concat_eq_append, path_concat_of_ne_nil alone]
      rfl

private theorem eq_singleton_of_path_eq_ofReference {nodes : List NodeId} {reference : Reference}
    (isLeaf : path nodes = ofReference reference) :
    ∃ node, nodes = [node] ∧ reference = .node node := by
  have leaves := congrArg leaves isLeaf
  rw [leaves_path, leaves_ofReference] at leaves
  obtain ⟨node, rfl, same⟩ := List.map_eq_singleton_iff.mp leaves
  exact ⟨node, rfl, same.symm⟩

private theorem head?_of_mem_entries_path {nodes : List NodeId} {reference : Reference}
    (isEntry : reference ∈ (path nodes).entries hasDefaultExit) :
    ∃ node, nodes.head? = some node ∧ reference = .node node := by
  induction nodes using List.reverseRecOn with
  | nil => cases isEntry
  | append_singleton front last ih =>
      match front with
      | [] =>
          rw [List.nil_append, path_singleton, entries] at isEntry
          split at isEntry
          · exact ⟨last, rfl, List.mem_singleton.mp isEntry⟩
          · cases isEntry
      | first :: rest =>
          rw [path_concat_of_ne_nil (List.cons_ne_nil first rest)] at isEntry
          exact ih isEntry

/-! ### What contains a reference -/

theorem contains_iff_leaves (reference : Reference) (expr : Expr) :
    expr.contains reference = true ↔ ∃ leaf ∈ expr.leaves, leaf.owner = reference.owner := by
  induction expr with
  | empty => simp [contains, leaves]
  | sequence first second ihFirst ihSecond =>
      rw [contains_sequence, ihFirst, ihSecond]
      simp only [leaves, List.mem_append, or_and_right, exists_or]
  | set members ih =>
      rw [contains_set]
      simp only [leaves, mem_leavesOfAll]
      constructor
      · rintro ⟨member, present, inside⟩
        obtain ⟨leaf, isLeaf, owner⟩ := (ih member present).mp inside
        exact ⟨leaf, ⟨member, present, isLeaf⟩, owner⟩
      · rintro ⟨leaf, ⟨member, present, isLeaf⟩, owner⟩
        exact ⟨member, present, (ih member present).mpr ⟨leaf, isLeaf, owner⟩⟩
  | _ => simp [contains, leaves, Reference.owner]

theorem contains_andThen {first second : Expr} {reference : Reference} :
    (first.andThen second).contains reference = true ↔
      first.contains reference = true ∨ second.contains reference = true := by
  simp only [contains_iff_leaves, leaves_andThen, List.mem_append, or_and_right, exists_or]

theorem contains_path {nodes : List NodeId} {node : NodeId} :
    (path nodes).contains (.node node) = true ↔ node ∈ nodes := by
  rw [contains_iff_leaves, leaves_path]
  simp [Reference.owner]

/-! ### Paths side by side -/

theorem contains_paths {ways : List (List NodeId)} {node : NodeId} :
    (Expr.set (ways.map path)).contains (.node node) = true ↔ ∃ way ∈ ways, node ∈ way := by
  simp [contains_set, contains_path]

theorem solid_paths {ways : List (List NodeId)} (several : ways ≠ [])
    (inhabited : ∀ way ∈ ways, way ≠ []) : (Expr.set (ways.map path)).Solid := by
  refine .set (mt List.map_eq_nil_iff.mp several) ?_
  intro member present
  obtain ⟨way, isWay, rfl⟩ := List.mem_map.mp present
  exact solid_path (inhabited way isWay)

structure StartApart (ways : List (List NodeId)) : Prop where
  inhabited : ∀ way ∈ ways, way ≠ []
  apart : ways.Pairwise fun left right => left.head? ≠ right.head?

theorem eraseDups_of_nodup {items : List Expr} (distinct : items.Nodup) :
    items.eraseDups = items := by
  induction items with
  | nil => rfl
  | cons item items ih =>
      obtain ⟨outside, rest⟩ := List.nodup_cons.mp distinct
      have unchanged : (items.filter fun other => !other == item) = items := by
        apply List.filter_eq_self.mpr
        intro other present
        simp only [Bool.not_eq_true', beq_eq_false_iff_ne, ne_eq]
        rintro rfl
        exact outside present
      rw [List.eraseDups_cons, unchanged, ih rest]

namespace StartApart

theorem pair {left right : List NodeId} (leftInhabited : left ≠ []) (rightInhabited : right ≠ [])
    (disjoint : left.Disjoint right) : StartApart [left, right] where
  inhabited := by simpa using ⟨leftInhabited, rightInhabited⟩
  apart := by
    refine List.pairwise_pair.mpr ?_
    intro sameHead
    rw [List.head?_eq_some_head leftInhabited] at sameHead
    exact disjoint (List.head_mem leftInhabited) (List.mem_of_head? sameHead.symm)

theorem perm {ways others : List (List NodeId)} (startApart : StartApart ways)
    (rearranged : ways.Perm others) : StartApart others where
  inhabited := fun way isWay => startApart.inhabited way (rearranged.mem_iff.mpr isWay)
  apart := startApart.apart.perm rearranged fun different => different.symm

variable {ways : List (List NodeId)} (startApart : StartApart ways)
include startApart

private theorem inlined_paths : inlined (ways.map path) = ways.map path := by
  have alone : ∀ piece ∈ ways.map path, piece.spread = [piece] := by
    intro piece isPath
    obtain ⟨way, present, rfl⟩ := List.mem_map.mp isPath
    exact spread_path (startApart.inhabited way present)
  have distinct : (ways.map path).Nodup := by
    apply List.Nodup.map injective_path
    refine startApart.apart.imp ?_
    rintro left right different rfl
    exact different rfl
  rw [inlined, spreadAll_of_pieces alone, eraseDups_of_nodup distinct]

private theorem eq_of_head? {left right : List NodeId} (isLeft : left ∈ ways)
    (isRight : right ∈ ways) (sameHead : left.head? = right.head?) : left = right := by
  by_contra different
  have : Std.Symm fun left right : List NodeId => left.head? ≠ right.head? :=
    ⟨fun _ _ different => different.symm⟩
  exact startApart.apart.forall isLeft isRight different sameHead

private theorem subsumed_path {way : List NodeId} (isWay : way ∈ ways) :
    subsumed hasDefaultExit (ways.map path) (path way) = false := by
  rw [Bool.eq_false_iff]
  intro dropped
  obtain ⟨reference, isLeaf, other, isPath, composite, isEntry⟩ := subsumed_cases dropped
  obtain ⟨node, rfl, rfl⟩ := eq_singleton_of_path_eq_ofReference isLeaf
  obtain ⟨otherWay, isOther, rfl⟩ := List.mem_map.mp isPath
  obtain ⟨first, isFirst, same⟩ := head?_of_mem_entries_path isEntry
  cases same
  have sameWay := startApart.eq_of_head? isWay isOther isFirst.symm
  rw [← sameWay] at composite
  cases composite

theorem flatten_paths : flatten hasDefaultExit (ways.map path) = ofMembers (ways.map path) := by
  rw [flatten_eq_ofMembers_kept, startApart.inlined_paths, kept]
  congr 1
  apply List.filter_eq_self.mpr
  intro member isPath
  obtain ⟨way, isWay, rfl⟩ := List.mem_map.mp isPath
  rw [startApart.subsumed_path isWay]
  rfl

private theorem branching?_paths :
    branching? hasDefaultExit (ways.map path) = some (ofMembers (ways.map path)) := by
  have none : (ways.map path).any (subsumed hasDefaultExit (ways.map path)) = false := by
    rw [List.any_eq_false]
    intro member isPath
    obtain ⟨way, isWay, rfl⟩ := List.mem_map.mp isPath
    rw [startApart.subsumed_path isWay]
    exact Bool.false_ne_true
  unfold branching?
  dsimp only
  rw [startApart.inlined_paths, none, if_neg Bool.false_ne_true]

end StartApart

/-! ### Common beginnings -/

private theorem commonBeginning_of_ne {left right : Expr} (lefts rights : List Expr)
    (front : List Expr) (different : left ≠ right) :
    commonBeginning (front ++ left :: lefts) (front ++ right :: rights) = front := by
  induction front with
  | nil => rw [List.nil_append, List.nil_append, commonBeginning, if_neg different]
  | cons first front ih => rw [List.cons_append, List.cons_append, commonBeginning, if_pos rfl, ih]

private theorem foldl_commonBeginning_nil (lists : List (List Expr)) :
    lists.foldl commonBeginning [] = [] := by
  induction lists with
  | nil => rfl
  | cons list lists ih => exact ih

theorem StartApart.shareBeginning?_paths {ways : List (List NodeId)}
    (startApart : StartApart ways) :
    shareBeginning? hasDefaultExit (ways.map path) = none := by
  match ways with
  | [] => rfl
  | [_] => rfl
  | first :: second :: rest =>
      have different := (List.pairwise_cons.mp startApart.apart).1 second List.mem_cons_self
      have firstInhabited := startApart.inhabited first List.mem_cons_self
      have secondInhabited := startApart.inhabited second (by simp)
      obtain ⟨left, lefts, rfl⟩ := List.exists_cons_of_ne_nil firstInhabited
      obtain ⟨right, rights, rfl⟩ := List.exists_cons_of_ne_nil secondInhabited
      have noneCommon : sharedBeginning (((left :: lefts) :: (right :: rights) :: rest).map path
          |>.map steps) = [] := by
        simp only [List.map_cons, steps_path, sharedBeginning, List.foldl_cons]
        have differ : Expr.node left ≠ .node right := by
          intro same
          cases same
          exact different rfl
        rw [← List.nil_append (Expr.node left :: _), ← List.nil_append (Expr.node right :: _),
          commonBeginning_of_ne _ _ [] differ, foldl_commonBeginning_nil]
      unfold shareBeginning?
      dsimp only
      rw [noneCommon]
      split <;> rfl

section Branches

variable {first second : Expr}

theorem flatten_sequences {front back other last : Expr}
    (different : Expr.sequence front back ≠ .sequence other last) :
    flatten hasDefaultExit [.sequence front back, .sequence other last] =
      .set [.sequence front back, .sequence other last] := by
  have pieces : inlined [.sequence front back, .sequence other last] =
      [.sequence front back, .sequence other last] :=
    eraseDups_of_nodup (List.nodup_cons.mpr
      ⟨fun present => different (List.mem_singleton.mp present), List.nodup_singleton _⟩)
  rw [flatten_eq_ofMembers_kept, pieces]
  rfl

/-- Two branches of one expression have that expression in common. -/
theorem shareBeginning?_branches {front : Expr} (leans : front.LeansLeft) (ofFirst : first.IsStep)
    (ofSecond : second.IsStep) (different : first ≠ second) :
    shareBeginning? hasDefaultExit [.sequence front first, .sequence front second] =
      some (front.andThen (flatten hasDefaultExit [first, second])) := by
  have stepsOf : ∀ {last : Expr}, last.IsStep →
      (Expr.sequence front last).steps = front.steps ++ last :: [] := by
    intro last isStep
    rw [steps, isStep.steps]
  have common : sharedBeginning [front.steps ++ first :: [], front.steps ++ second :: []] =
      front.steps := commonBeginning_of_ne [] [] _ different
  have occupied : front.steps.isEmpty = false := by
    rw [List.isEmpty_eq_false_iff]
    intro noSteps
    have isEmpty := leans.chain_steps
    rw [noSteps] at isEmpty
    exact leans.ne_empty isEmpty.symm
  have isChain : ∀ step : Expr, chain [step] = step := empty_andThen
  unfold shareBeginning?
  rw [if_neg (by simp [isSequence])]
  dsimp only
  rw [List.map_cons, List.map_singleton, stepsOf ofFirst, stepsOf ofSecond, common, occupied,
    if_neg Bool.false_ne_true, List.map_cons, List.map_singleton, List.drop_left, List.drop_left,
    isChain, isChain, leans.chain_steps]

end Branches

/-! ### Common ends -/

private theorem isLeafOf_node (node other : NodeId) :
    isLeafOf node (.node other) = decide (other = node) := by
  rw [Bool.eq_iff_iff]
  simp [isLeafOf, reference?, Reference.node?]

private theorem cutAt?_path {node : NodeId} {front : List NodeId} (outside : node ∉ front)
    (back : List NodeId) :
    cutAt? node (path (front ++ node :: back)) =
      some (front.map .node, (node :: back).map .node) := by
  have before : ∀ step ∈ front.map Expr.node, (!step.isLeafOf node) = true := by
    intro step present
    obtain ⟨other, isOther, rfl⟩ := List.mem_map.mp present
    rw [isLeafOf_node, Bool.not_eq_true', decide_eq_false_iff_not]
    rintro rfl
    exact outside isOther
  have here : ¬ (!(Expr.node node).isLeafOf node) = true := by
    rw [isLeafOf_node, decide_eq_true rfl]
    exact Bool.false_ne_true
  have taken :
      (Expr.node node :: back.map .node).takeWhile (fun step => !step.isLeafOf node) = [] :=
    List.takeWhile_cons_of_neg here
  have dropped : (Expr.node node :: back.map .node).dropWhile (fun step => !step.isLeafOf node) =
      .node node :: back.map .node := List.dropWhile_cons_of_neg here
  unfold cutAt?
  rw [steps_path, List.map_append, List.takeWhile_append_of_pos before,
    List.dropWhile_append_of_pos before, List.map_cons, taken, dropped, List.append_nil]

private theorem cutAt?_path_of_not_mem {node : NodeId} {nodes : List NodeId}
    (outside : node ∉ nodes) : cutAt? node (path nodes) = none := by
  have before : ∀ step ∈ nodes.map Expr.node, (!step.isLeafOf node) = true := by
    intro step present
    obtain ⟨other, isOther, rfl⟩ := List.mem_map.mp present
    rw [isLeafOf_node, Bool.not_eq_true', decide_eq_false_iff_not]
    rintro rfl
    exact outside isOther
  unfold cutAt?
  rw [steps_path, List.dropWhile_eq_nil_iff.mpr before]

private theorem mapM_eq_none_of_mem {Item Result : Type} {read : Item → Option Result}
    {items : List Item}
    {item : Item} (present : item ∈ items) (fails : read item = none) : items.mapM read = none := by
  induction items with
  | nil => cases present
  | cons first rest ih =>
      rw [List.mapM_cons]
      rcases List.mem_cons.mp present with rfl | later
      · rw [fails]
        rfl
      · rw [ih later]
        cases read first <;> rfl

theorem shareEnding?_paths_of_not_mem {node : NodeId} {ways : List (List NodeId)}
    {way : List NodeId} (isWay : way ∈ ways) (outside : node ∉ way) :
    shareEnding? hasDefaultExit node (ways.map path) = none := by
  have isPath : path way ∈ ways.map path := List.mem_map_of_mem isWay
  have notCut := mapM_eq_none_of_mem isPath (cutAt?_path_of_not_mem outside)
  unfold shareEnding?
  rw [notCut]
  split <;> rfl

private theorem mapM_eq_some_map {Item Result : Type} {read : Item → Option Result}
    {value : Item → Result}
    {items : List Item} (found : ∀ item ∈ items, read item = some (value item)) :
    items.mapM read = some (items.map value) := by
  induction items with
  | nil => rfl
  | cons first rest ih =>
      rw [List.mapM_cons, found first List.mem_cons_self,
        ih fun item later => found item (List.mem_cons_of_mem first later)]
      rfl

structure Crossing where
  before : List NodeId
  behind : List NodeId

def Crossing.way (node : NodeId) (crossing : Crossing) : List NodeId :=
  crossing.before ++ node :: crossing.behind

section Crossings

variable {node : NodeId} {crossings : List Crossing}

private theorem mapM_cutAt?_crossings (outside : ∀ crossing ∈ crossings, node ∉ crossing.before) :
    ((crossings.map (Crossing.way node)).map path).mapM (cutAt? node) =
      some (crossings.map fun crossing =>
        (crossing.before.map .node, (node :: crossing.behind).map .node)) := by
  rw [List.map_map, List.mapM_map]
  apply mapM_eq_some_map
  intro crossing present
  exact cutAt?_path (outside crossing present) crossing.behind

theorem StartApart.ways (startApart : StartApart (crossings.map Crossing.before)) (node : NodeId) :
    StartApart (crossings.map (Crossing.way node)) where
  inhabited := by
    intro way isWay
    obtain ⟨crossing, _, rfl⟩ := List.mem_map.mp isWay
    exact List.append_ne_nil_of_right_ne_nil _ (List.cons_ne_nil _ _)
  apart := by
    have sameHead : ∀ crossing ∈ crossings, (crossing.way node).head? = crossing.before.head? := by
      intro crossing present
      exact List.head?_append_of_ne_nil _ (startApart.inhabited _ (List.mem_map_of_mem present))
    refine List.pairwise_map.mpr ((List.pairwise_map.mp startApart.apart).imp_of_mem ?_)
    intro left right isLeft isRight different
    rw [sameHead left isLeft, sameHead right isRight]
    exact different

/-- When all ways have come to a node, what the farthest one has from there on stands once behind
all of them. -/
theorem shareEnding?_crossings {behind : List NodeId} (several : 2 ≤ crossings.length)
    (startApart : StartApart (crossings.map Crossing.before))
    (outside : ∀ crossing ∈ crossings, node ∉ crossing.before)
    (farthest : longest (crossings.map fun crossing => (node :: crossing.behind).map .node) =
      (node :: behind).map .node)
    (within : ∀ crossing ∈ crossings, crossing.behind <+: behind) :
    shareEnding? hasDefaultExit node ((crossings.map (Crossing.way node)).map path) =
      some ((ofMembers ((crossings.map Crossing.before).map path)).andThen
        (path (node :: behind))) := by
  have inhabited : ∀ crossing ∈ crossings, crossing.before ≠ [] := by
    intro crossing present
    exact startApart.inhabited _ (List.mem_map_of_mem present)
  obtain ⟨first, isFirst⟩ : ∃ first, first ∈ crossings :=
    List.exists_mem_of_length_pos (Nat.lt_of_lt_of_le Nat.zero_lt_two several)
  let splits := crossings.map fun crossing =>
    (crossing.before.map Expr.node, (node :: crossing.behind).map Expr.node)
  have notAll : (splits.all fun split => split.1.isEmpty) = false := by
    rw [List.all_eq_false]
    refine ⟨_, List.mem_map_of_mem isFirst, ?_⟩
    simpa using inhabited first isFirst
  have noneEmpty : (splits.any fun split => split.1.isEmpty) = false := by
    rw [List.any_eq_false]
    intro split isSplit
    obtain ⟨crossing, present, rfl⟩ := List.mem_map.mp isSplit
    simpa using inhabited crossing present
  have prefixes :
      (splits.all fun split => split.2.isPrefixOf ((node :: behind).map .node)) = true := by
    rw [List.all_eq_true]
    intro split isSplit
    obtain ⟨crossing, present, rfl⟩ := List.mem_map.mp isSplit
    exact List.isPrefixOf_iff_prefix.mpr
      (((List.prefix_cons_inj node).mpr (within crossing present)).map Expr.node)
  have branches : splits.map (fun split => chain split.1) =
      (crossings.map Crossing.before).map path := by
    rw [List.map_map, List.map_map]
    rfl
  have tailIs : longest (splits.map Prod.snd) = (node :: behind).map .node := by
    rw [List.map_map]
    exact farthest
  unfold shareEnding?
  rw [if_neg (by rw [List.length_map, List.length_map]; omega), mapM_cutAt?_crossings outside]
  dsimp only
  rw [tailIs, notAll, if_neg Bool.false_ne_true, prefixes, if_neg (by simp), noneEmpty,
    if_neg Bool.false_ne_true, joinBranches?, branches, startApart.branching?_paths]
  rfl

end Crossings

end FlowGraph.Expr
