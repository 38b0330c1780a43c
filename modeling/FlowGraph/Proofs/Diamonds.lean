import FlowGraph.Proofs.DrawnGraphs
import FlowGraph.Proofs.FoldedPaths

/-!
Diamonds: two branches that leave one place and meet again. The branches are drawn side by side,
and one of them may come to the place where they meet, and go on from there, long before the
other one does. When that comes there, too, what they share is taken out, and the rest is drawn
behind it.
-/

namespace FlowGraph

open FlowGraph.Build FlowGraph.Expr

/-- Nodes in a row, two branches behind them, the node where these meet, and more nodes in a row
behind that. -/
structure Diamond where
  stem : List NodeId
  left : List NodeId
  right : List NodeId
  merge : NodeId
  tail : List NodeId

private theorem Surroundings.foldAtTop_branch {surroundings : Surroundings} {target : NodeId}
    {front way other : List NodeId} {ways : List (List NodeId)} (inhabited : way ≠ [])
    (otherInhabited : other ≠ []) (distinct : (front ++ ((way ++ [target]) ++ other)).Nodup)
    (areWays : ways.Perm [way, other]) (start : Option Reference) :
    ∃ extended : List (List NodeId), extended.Perm [way ++ [target], other] ∧
      surroundings.foldAtTop (endOf start way) target
          ((path front).andThen (.set (ways.map path))) =
        some ((path front).andThen (.set (extended.map path))) := by
  obtain ⟨nodes, source, rfl⟩ := exists_front_and_last inhabited
  have behind := (List.nodup_append.mp distinct).2.1
  have fromFront := List.disjoint_of_nodup_append distinct
  have fromWay := List.disjoint_of_nodup_append behind
  have along := (List.nodup_append.mp behind).1
  have isNew := List.disjoint_of_nodup_append along
  have atEnd := List.disjoint_of_nodup_append (List.nodup_append.mp along).1
  have inWay : target ∈ (nodes ++ [source]) ++ [target] := by simp
  have sourceInWay : source ∈ (nodes ++ [source]) ++ [target] := by simp
  have notAhead : ∀ path ∈ ways, target ∉ path := by
    intro path isWay inPath
    rcases List.mem_pair.mp (areWays.mem_iff.mp isWay) with rfl | rfl
    · exact isNew inPath (List.mem_singleton_self target)
    · exact fromWay inWay inPath
  obtain ⟨extended, areExtended, found⟩ := Surroundings.foldAtTop_way
    (emptyOrSolid_path front) areWays (Surroundings.contains_path_eq_false fun inFront =>
      fromFront inFront (List.mem_append_left _ sourceInWay))
    (fun inNodes => atEnd inNodes (List.mem_singleton_self source))
    (by simpa using ⟨otherInhabited, fun inOther => fromWay sourceInWay inOther⟩) (Or.inl notAhead)
  have longer : nodes ++ [source, target] = (nodes ++ [source]) ++ [target] := by simp
  rw [longer] at areExtended
  have apart := StartApart.pair (by simp) otherInhabited fromWay
  refine ⟨extended, areExtended, ?_⟩
  rw [endOf_concat, found, Surroundings.compactSet_apart (Nat.le_of_eq areExtended.length_eq.symm)
    (apart.perm areExtended.symm) (areExtended.mem_iff.mpr (by simp))
    fun inOther => fromWay inWay inOther]

namespace Diamond

def fork (diamond : Diamond) : Option Reference := endOf none diamond.stem

def flipped (diamond : Diamond) : Diamond :=
  { diamond with left := diamond.right, right := diamond.left }

def hopsAlong (diamond : Diamond) (left right : List NodeId) : List ResolvedEdge :=
  hopsFrom none diamond.stem ++ (hopsFrom diamond.fork left ++ hopsFrom diamond.fork right)

def hops (diamond : Diamond) : List ResolvedEdge :=
  diamond.hopsAlong (diamond.left ++ diamond.merge :: diamond.tail)
    (diamond.right ++ [diamond.merge])

def branching (diamond : Diamond) (ways : List (List NodeId)) : Expr :=
  (path diamond.stem).andThen (.set (ways.map path))

def shape (diamond : Diamond) : Expr :=
  chain (diamond.stem.map .node ++ [.set [path diamond.left, path diamond.right],
    .node diamond.merge] ++ diamond.tail.map .node)

theorem mem_hopsAlong {diamond : Diamond} {left right : List NodeId} {hop : ResolvedEdge} :
    hop ∈ diamond.hopsAlong left right ↔ hop ∈ hopsFrom none diamond.stem ∨
      hop ∈ hopsFrom diamond.fork left ∨ hop ∈ hopsFrom diamond.fork right := by
  rw [hopsAlong, List.mem_append, List.mem_append]

private theorem mem_hopsAlong_left {diamond : Diamond} {left right : List NodeId} {next : NodeId}
    (hop : ResolvedEdge) : hop ∈ diamond.hopsAlong (left ++ [next]) right ↔
      hop = ⟨endOf diamond.fork left, next⟩ ∨ hop ∈ diamond.hopsAlong left right := by
  simp only [mem_hopsAlong, hopsFrom_append, hopsFrom, List.mem_append, List.mem_singleton]
  grind

theorem mem_hopsAlong_right {diamond : Diamond} {left right : List NodeId} {next : NodeId}
    (hop : ResolvedEdge) : hop ∈ diamond.hopsAlong left (right ++ [next]) ↔
      hop = ⟨endOf diamond.fork right, next⟩ ∨ hop ∈ diamond.hopsAlong left right := by
  simp only [mem_hopsAlong, hopsFrom_append, hopsFrom, List.mem_append, List.mem_singleton]
  grind

theorem contains_branching {diamond : Diamond} {ways : List (List NodeId)} {node : NodeId} :
    (diamond.branching ways).contains (.node node) = true ↔
      node ∈ diamond.stem ∨ ∃ way ∈ ways, node ∈ way := by
  rw [branching, contains_andThen, contains_path, contains_paths]

private theorem emptyOrSolid_branching (diamond : Diamond) {ways : List (List NodeId)}
    (several : ways ≠ []) (inhabited : ∀ way ∈ ways, way ≠ []) :
    (diamond.branching ways).EmptyOrSolid :=
  (emptyOrSolid_path diamond.stem).andThen (.inr (solid_paths several inhabited))

private theorem merge_mem (diamond : Diamond) :
    diamond.merge ∈ diamond.left ++ diamond.merge :: diamond.tail := by
  simp

theorem meet_mem_hops (diamond : Diamond) :
    ⟨endOf diamond.fork diamond.right, diamond.merge⟩ ∈ diamond.hops :=
  (mem_hopsAlong_right _).mpr (Or.inl rfl)

structure Proper (diamond : Diamond) : Prop where
  distinct : (diamond.stem ++ ((diamond.left ++ diamond.merge :: diamond.tail) ++
    diamond.right)).Nodup
  leftInhabited : diamond.left ≠ []
  rightInhabited : diamond.right ≠ []

namespace Proper

variable {diamond : Diamond} (proper : diamond.Proper)
include proper

theorem disjoint_stem :
    diamond.stem.Disjoint ((diamond.left ++ diamond.merge :: diamond.tail) ++ diamond.right) :=
  List.disjoint_of_nodup_append proper.distinct

theorem disjoint_right :
    (diamond.left ++ diamond.merge :: diamond.tail).Disjoint diamond.right :=
  List.disjoint_of_nodup_append (List.nodup_append.mp proper.distinct).2.1

theorem nodup_left : (diamond.left ++ diamond.merge :: diamond.tail).Nodup :=
  (List.nodup_append.mp (List.nodup_append.mp proper.distinct).2.1).1

theorem nodup_right : diamond.right.Nodup :=
  (List.nodup_append.mp (List.nodup_append.mp proper.distinct).2.1).2.1

theorem first_ne {first second : NodeId} {lefts rights : List NodeId}
    (isLeft : diamond.left = first :: lefts) (isRight : diamond.right = second :: rights) :
    first ≠ second := by
  rintro rfl
  refine proper.disjoint_right (List.mem_append_left _ ?_) (isRight ▸ List.mem_cons_self)
  exact isLeft ▸ List.mem_cons_self

theorem disjoint_tail : diamond.left.Disjoint (diamond.merge :: diamond.tail) :=
  List.disjoint_of_nodup_append proper.nodup_left

theorem merge_not_mem_stem : diamond.merge ∉ diamond.stem := fun inStem =>
  proper.disjoint_stem inStem (List.mem_append_left _ diamond.merge_mem)

private theorem merge_not_mem_left : diamond.merge ∉ diamond.left := fun inLeft =>
  proper.disjoint_tail inLeft List.mem_cons_self

theorem merge_not_mem_right : diamond.merge ∉ diamond.right := fun inRight =>
  proper.disjoint_right diamond.merge_mem inRight

end Proper

theorem Proper.flipped {diamond : Diamond} (proper : diamond.Proper) : diamond.flipped.Proper where
  distinct := by
    refine List.Perm.nodup_iff (List.perm_iff_count.mpr ?_) |>.mp proper.distinct
    intro node
    simp only [Diamond.flipped, List.count_append]
    omega
  leftInhabited := proper.rightInhabited
  rightInhabited := proper.leftInhabited

theorem mem_hops_flipped {diamond : Diamond} {hop : ResolvedEdge} :
    hop ∈ diamond.flipped.hops ↔ hop ∈ diamond.hops := by
  have split : ∀ branch : List NodeId, branch ++ diamond.merge :: diamond.tail =
      (branch ++ [diamond.merge]) ++ diamond.tail := by simp
  simp only [hops, mem_hopsAlong, flipped, fork, split, hopsFrom_append _ (_ ++ [_]),
    endOf_concat, List.mem_append]
  grind

/-- How much of a diamond is drawn. -/
inductive Stage (workflow : Workflow) :
    Diamond → List ResolvedEdge → Expr → List EdgeId → Prop
  /-- Some nodes of the stem. -/
  | onStem {diamond front rest pending} (isStem : diamond.stem = front ++ rest) :
      Stage workflow diamond (hopsFrom none front) (path front) pending
  /-- The stem and one node behind it. The node at the beginning of the other branch is next. -/
  | forked {diamond first lefts second rights edge pending} (isLeft : diamond.left = first :: lefts)
      (isRight : diamond.right = second :: rights)
      (resolves : workflow.resolveEdge edge = .ok ⟨diamond.fork, second⟩) :
      Stage workflow diamond (diamond.hopsAlong [first] []) (path (diamond.stem ++ [first]))
        (edge :: pending)
  /-- Nodes of both branches. The left one may have gone on behind the right one's end. -/
  | apart {diamond left lefts right rights pending} {ways : List (List NodeId)}
      (isLeft : diamond.left ++ diamond.merge :: diamond.tail = left ++ lefts)
      (isRight : diamond.right = right ++ rights) (leftInhabited : left ≠ [])
      (rightInhabited : right ≠ []) (areWays : ways.Perm [left, right]) :
      Stage workflow diamond (diamond.hopsAlong left right) (diamond.branching ways) pending
  /-- Both branches up to the place where they meet, and some nodes behind it. -/
  | merged {diamond front rest pending} {branches : List (List NodeId)}
      (isTail : diamond.tail = front ++ rest)
      (areBranches : branches.Perm [diamond.left, diamond.right]) :
      Stage workflow diamond
        (diamond.hopsAlong (diamond.left ++ diamond.merge :: front)
          (diamond.right ++ [diamond.merge]))
        ((diamond.branching branches).andThen (path (diamond.merge :: front))) pending
  /-- The same with the branches called the other way round. -/
  | mirrored {diamond drawn expr pending}
      (stage : Stage workflow diamond.flipped drawn expr pending) :
      Stage workflow diamond drawn expr pending

/-- A hop has a place in what is drawn of a diamond, and with it more of the diamond is drawn,
whatever waits behind the edges that wait already. -/
def Leads (workflow : Workflow) (diamond : Diamond) (drawn : List ResolvedEdge) (expr : Expr)
    (pending : List EdgeId) (hop : ResolvedEdge) : Prop :=
  ∃ folded others, workflow.surroundings.foldAtTop hop.source hop.target expr = some folded ∧
    (∀ other, other ∈ others ↔ other = hop ∨ other ∈ drawn) ∧
    ∀ waiting, pending <+: waiting → Stage workflow diamond others folded waiting

variable {workflow : Workflow} {diamond : Diamond} {drawn : List ResolvedEdge} {expr : Expr}
  {pending : List EdgeId} {hop : ResolvedEdge}

theorem Leads.mirrored (leads : Leads workflow diamond.flipped drawn expr pending hop) :
    Leads workflow diamond drawn expr pending hop := by
  obtain ⟨folded, others, found, grown, stages⟩ := leads
  exact ⟨folded, others, found, grown, fun waiting behind => .mirrored (stages waiting behind)⟩

theorem Leads.congr {others : List ResolvedEdge}
    (leads : Leads workflow diamond drawn expr pending hop)
    (same : ∀ other, other ∈ others ↔ other ∈ drawn) :
    Leads workflow diamond others expr pending hop := by
  obtain ⟨folded, grown, found, isGrown, stages⟩ := leads
  refine ⟨folded, grown, found, fun other => ?_, stages⟩
  rw [isGrown, same]

/-! ### One more hop -/

section Hops

variable (proper : diamond.Proper) {front rest left right later : List NodeId}
  {ways branches : List (List NodeId)} {next : NodeId}
include proper

theorem leads_onStem (isStem : diamond.stem = front ++ next :: rest) :
    Leads workflow diamond (hopsFrom none front) (path front) pending ⟨endOf none front, next⟩ := by
  have distinct := (List.nodup_append.mp proper.distinct).1
  rw [isStem] at distinct
  refine ⟨path (front ++ [next]), hopsFrom none (front ++ [next]), ?_, ?_, ?_⟩
  · rw [endOf, Option.or_none]
    exact Surroundings.foldAtTop_path (List.nodup_append.mp distinct).1
  · intro other
    rw [hopsFrom_append, List.mem_append, or_comm]
    exact or_congr_left List.mem_singleton
  · exact fun _ _ => .onStem (by rw [isStem, List.append_assoc]; rfl)

theorem leads_fork_first {first second : NodeId} {lefts rights : List NodeId} {edge : EdgeId}
    (isLeft : diamond.left = first :: lefts) (isRight : diamond.right = second :: rights)
    (resolves : workflow.resolveEdge edge = .ok ⟨diamond.fork, second⟩) :
    Leads workflow diamond (hopsFrom none diamond.stem) (path diamond.stem) (edge :: pending)
      ⟨diamond.fork, first⟩ := by
  refine ⟨path (diamond.stem ++ [first]), diamond.hopsAlong [first] [], ?_, ?_, ?_⟩
  · rw [fork, endOf, Option.or_none]
    exact Surroundings.foldAtTop_path (List.nodup_append.mp proper.distinct).1
  · simp [mem_hopsAlong, hopsFrom, or_comm]
  · rintro _ ⟨more, rfl⟩
    exact .forked isLeft isRight resolves

theorem leads_fork_second {first second : NodeId} {lefts rights : List NodeId}
    (isLeft : diamond.left = first :: lefts) (isRight : diamond.right = second :: rights) :
    Leads workflow diamond (diamond.hopsAlong [first] []) (path (diamond.stem ++ [first])) pending
      ⟨diamond.fork, second⟩ := by
  have nodupStem := (List.nodup_append.mp proper.distinct).1
  refine ⟨diamond.branching [[first], [second]], diamond.hopsAlong [first] [second], ?_,
    @mem_hopsAlong_right diamond [first] [] second, ?_⟩
  · rw [fork, endOf, Option.or_none]
    exact Surroundings.foldAtTop_fork nodupStem (proper.first_ne isLeft isRight)
  · have isLonger : diamond.left ++ diamond.merge :: diamond.tail =
        [first] ++ (lefts ++ diamond.merge :: diamond.tail) := by
      rw [isLeft]
      rfl
    exact fun _ _ => .apart isLonger isRight (List.cons_ne_nil first [])
      (List.cons_ne_nil second []) (.refl _)

theorem leads_left (isLeft : diamond.left ++ diamond.merge :: diamond.tail = left ++ next :: later)
    (isRight : diamond.right = right ++ rest) (leftInhabited : left ≠ [])
    (rightInhabited : right ≠ []) (areWays : ways.Perm [left, right]) :
    Leads workflow diamond (diamond.hopsAlong left right) (diamond.branching ways) pending
      ⟨endOf diamond.fork left, next⟩ := by
  have distinct : (diamond.stem ++ ((left ++ [next]) ++ right)).Nodup := by
    have whole := proper.distinct
    rw [isLeft, isRight] at whole
    refine whole.sublist (List.Sublist.append_left ?_ _)
    refine List.Sublist.append (List.Sublist.append_left ?_ _) (List.sublist_append_left _ _)
    exact List.singleton_sublist.mpr List.mem_cons_self
  obtain ⟨extended, areExtended, found⟩ := Surroundings.foldAtTop_branch leftInhabited
    rightInhabited distinct areWays diamond.fork
  have isLonger : diamond.left ++ diamond.merge :: diamond.tail = (left ++ [next]) ++ later := by
    rw [isLeft, List.append_assoc]
    rfl
  exact ⟨_, _, found, mem_hopsAlong_left, fun _ _ =>
    .apart isLonger isRight (by simp) rightInhabited areExtended⟩

theorem leads_right (isLeft : diamond.left ++ diamond.merge :: diamond.tail = left ++ rest)
    (isRight : diamond.right = right ++ next :: later) (leftInhabited : left ≠ [])
    (rightInhabited : right ≠ []) (areWays : ways.Perm [left, right]) :
    Leads workflow diamond (diamond.hopsAlong left right) (diamond.branching ways) pending
      ⟨endOf diamond.fork right, next⟩ := by
  have distinct : (diamond.stem ++ ((right ++ [next]) ++ left)).Nodup := by
    have whole := proper.distinct
    rw [isLeft, isRight] at whole
    refine (List.Perm.append_left _ List.perm_append_comm).nodup_iff.mp (whole.sublist ?_)
    refine List.Sublist.append_left ?_ _
    refine List.Sublist.append (List.sublist_append_left _ _) (List.Sublist.append_left ?_ _)
    exact List.singleton_sublist.mpr List.mem_cons_self
  obtain ⟨extended, areExtended, found⟩ := Surroundings.foldAtTop_branch rightInhabited
    leftInhabited distinct (areWays.trans (.swap _ _ _)) diamond.fork
  have isLonger : diamond.right = (right ++ [next]) ++ later := by
    rw [isRight, List.append_assoc]
    rfl
  exact ⟨_, _, found, mem_hopsAlong_right, fun _ _ =>
    .apart isLeft isLonger leftInhabited (by simp) (areExtended.trans (.swap _ _ _))⟩

/-- The right branch comes to the merge first. -/
theorem leads_right_ahead (isLeft : diamond.left = left ++ rest) (leftInhabited : left ≠ [])
    (areWays : ways.Perm [left, diamond.right]) :
    Leads workflow diamond (diamond.hopsAlong left diamond.right) (diamond.branching ways) pending
      ⟨endOf diamond.fork diamond.right, diamond.merge⟩ := by
  have leads : Leads workflow diamond.flipped _ _ pending _ := leads_left proper.flipped rfl isLeft
    proper.rightInhabited leftInhabited (areWays.trans (.swap _ _ _))
  refine (leads.mirrored).congr ?_
  intro other
  simp only [mem_hopsAlong, flipped, fork]
  grind

/-- The right branch comes to the merge last. -/
theorem leads_merge (isTail : diamond.tail = front ++ rest)
    (noLink : ∀ node ∈ diamond.right, workflow.hasLink diamond.merge node = false)
    (areWays : ways.Perm [diamond.left ++ diamond.merge :: front, diamond.right]) :
    Leads workflow diamond
      (diamond.hopsAlong (diamond.left ++ diamond.merge :: front) diamond.right)
      (diamond.branching ways) pending
      ⟨endOf diamond.fork diamond.right, diamond.merge⟩ := by
  obtain ⟨nodes, source, isRight⟩ := exists_front_and_last proper.rightInhabited
  have inRight : source ∈ diamond.right := by simp [isRight]
  have different : source ≠ diamond.merge := by
    rintro rfl
    exact proper.merge_not_mem_right inRight
  have alone : source ∉ nodes := by
    have distinct := proper.nodup_right
    rw [isRight] at distinct
    exact fun inNodes => List.disjoint_of_nodup_append distinct inNodes (List.mem_singleton_self _)
  have elsewhere : source ∉ diamond.left ++ diamond.merge :: front := by
    intro inLeft
    refine proper.disjoint_right ?_ inRight
    rw [isTail, ← List.cons_append, ← List.append_assoc]
    exact List.mem_append_left rest inLeft
  rw [isRight] at areWays
  have notBack : workflow.surroundings.hasLink diamond.merge source = false := noLink source inRight
  obtain ⟨extended, areExtended, found⟩ := Surroundings.foldAtTop_way
    (emptyOrSolid_path diamond.stem) (areWays.trans (.swap _ _ _))
    (Surroundings.contains_path_eq_false fun inStem =>
      proper.disjoint_stem inStem (List.mem_append_right _ inRight)) alone
    (by simpa using elsewhere) (Or.inr ⟨different, notBack⟩)
  have areMeeting : extended.Perm
      [diamond.left ++ diamond.merge :: front, diamond.right ++ [diamond.merge]] := by
    rw [isRight, List.append_assoc]
    exact areExtended.trans (.swap _ _ _)
  have apart := StartApart.pair proper.leftInhabited proper.rightInhabited fun _ inLeft =>
    proper.disjoint_right (List.mem_append_left _ inLeft)
  obtain ⟨branches, areBranches, together⟩ := Surroundings.compactSet_meeting areMeeting apart
    proper.merge_not_mem_left proper.merge_not_mem_right
  refine ⟨(diamond.branching branches).andThen (path (diamond.merge :: front)), _, ?_,
    mem_hopsAlong_right, fun _ _ => .merged isTail areBranches⟩
  rw [isRight, endOf_concat, branching, found, together, branching, andThen_assoc]

theorem leads_tail (isTail : diamond.tail = front ++ next :: rest)
    (areBranches : branches.Perm [diamond.left, diamond.right]) :
    Leads workflow diamond
      (diamond.hopsAlong (diamond.left ++ diamond.merge :: front)
        (diamond.right ++ [diamond.merge]))
      ((diamond.branching branches).andThen (path (diamond.merge :: front))) pending
      ⟨endOf diamond.fork (diamond.left ++ diamond.merge :: front), next⟩ := by
  obtain ⟨nodes, source, isEnd⟩ := exists_front_and_last (List.cons_ne_nil diamond.merge front)
  have isWhole : diamond.merge :: diamond.tail = nodes ++ source :: next :: rest := by
    rw [isTail, ← List.cons_append, isEnd, List.append_assoc]
    rfl
  have inTail : source ∈ diamond.merge :: diamond.tail := by simp [isWhole]
  have inLeft := List.mem_append_right diamond.left inTail
  have alone : source ∉ nodes := by
    have distinct := (List.nodup_append.mp proper.nodup_left).2.1
    rw [isWhole] at distinct
    exact fun inNodes => List.disjoint_of_nodup_append distinct inNodes List.mem_cons_self
  have inNoBranch : ∀ branch ∈ branches, branch ≠ [] ∧ source ∉ branch := by
    intro branch isBranch
    rcases List.mem_pair.mp (areBranches.mem_iff.mp isBranch) with rfl | rfl
    · exact ⟨proper.leftInhabited, fun inBranch => proper.disjoint_tail inBranch inTail⟩
    · exact ⟨proper.rightInhabited, fun inBranch => proper.disjoint_right inLeft inBranch⟩
  have outside : ((diamond.branching branches).andThen (path nodes)).contains (.node source) =
      false := by
    rw [Bool.eq_false_iff, ne_eq, contains_andThen, contains_branching, contains_path]
    rintro ((inStem | ⟨branch, isBranch, inBranch⟩) | inNodes)
    · exact proper.disjoint_stem inStem (List.mem_append_left _ inLeft)
    · exact (inNoBranch branch isBranch).2 inBranch
    · exact alone inNodes
  have several : branches ≠ [] := by
    rintro rfl
    cases areBranches.length_eq
  have formed : ((diamond.branching branches).andThen (path nodes)).EmptyOrSolid :=
    (diamond.emptyOrSolid_branching several fun branch isBranch =>
      (inNoBranch branch isBranch).1).andThen (emptyOrSolid_path nodes)
  have refused : Anchor.entry.admits (some (.node source)) = false := rfl
  have longer : diamond.merge :: (front ++ [next]) = (diamond.merge :: front) ++ [next] := rfl
  have further : diamond.left ++ diamond.merge :: (front ++ [next]) =
      (diamond.left ++ diamond.merge :: front) ++ [next] := by simp
  have isLonger : diamond.tail = (front ++ [next]) ++ rest := by
    rw [isTail, List.append_assoc]
    rfl
  refine ⟨(diamond.branching branches).andThen (path (diamond.merge :: (front ++ [next]))),
    diamond.hopsAlong (diamond.left ++ diamond.merge :: (front ++ [next]))
      (diamond.right ++ [diamond.merge]), ?_, ?_, fun _ _ => .merged isLonger areBranches⟩
  · rw [longer, endOf_append, isEnd, endOf_concat, path_concat _ next, path_concat]
    simp only [← andThen_assoc]
    exact Surroundings.fold_last formed refused outside
  · rw [further]
    exact mem_hopsAlong_left

end Hops

end Diamond

end FlowGraph
