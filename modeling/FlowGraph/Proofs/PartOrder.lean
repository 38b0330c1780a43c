import FlowGraph.Proofs.Solid

/-!
The parts of an expression, each reached by a path, and their post-order: from left to
right, and every part behind those in it. The paths of all parts in post-order are listed
once each, so a part has one number.
-/

namespace FlowGraph.Expr

/-! ### Paths -/

def parts : Expr → List Expr
  | .sequence first second => [first, second]
  | .set members => members
  | _ => []

/-- The part at a path, which tells the place in every expression on the way down. -/
def partAt? : Expr → List Nat → Option Expr
  | expr, [] => some expr
  | expr, place :: path => expr.parts[place]?.bind fun part => part.partAt? path

theorem partAt?_append (expr : Expr) (front back : List Nat) :
    expr.partAt? (front ++ back) = (expr.partAt? front).bind fun part => part.partAt? back := by
  induction front generalizing expr with
  | nil => rfl
  | cons place front ih =>
      rw [List.cons_append, partAt?, partAt?, Option.bind_assoc]
      exact congrArg _ (funext fun part => ih part)

private theorem partInduction {motive : Expr → Prop}
    (step : ∀ expr, (∀ part ∈ expr.parts, motive part) → motive expr) (expr : Expr) :
    motive expr := by
  induction expr with
  | sequence first second ofFirst ofSecond =>
      apply step
      intro part present
      rcases List.mem_cons.mp present with rfl | last
      · exact ofFirst
      · rw [List.mem_singleton.mp last]
        exact ofSecond
  | set members ofMembers => exact step _ ofMembers
  | _ => exact step _ nofun

/-! ### Post-order -/

mutual

/-- The paths of all parts, from left to right and each behind those of the parts in it. -/
def postorder : Expr → List (List Nat)
  | .sequence first second =>
      first.postorder.map (0 :: ·) ++ second.postorder.map (1 :: ·) ++ [[]]
  | .set members => postorderFrom 0 members ++ [[]]
  | _ => [[]]

def postorderFrom (place : Nat) : List Expr → List (List Nat)
  | [] => []
  | part :: parts => part.postorder.map (place :: ·) ++ postorderFrom (place + 1) parts

end

private theorem postorder_eq (expr : Expr) :
    expr.postorder = postorderFrom 0 expr.parts ++ [[]] := by
  cases expr with
  | sequence first second => simp [postorder, postorderFrom, parts]
  | set members => rfl
  | _ => rfl

/-- A path comes before another one if it leads into that part, or turns further to the left
where the two separate. -/
inductive Before : List Nat → List Nat → Prop where
  | inside (place : Nat) (path : List Nat) : Before (place :: path) []
  | left {place other : Nat} (path rest : List Nat) (smaller : place < other) :
      Before (place :: path) (other :: rest)
  | further (place : Nat) {path other : List Nat} (before : Before path other) :
      Before (place :: path) (place :: other)

private theorem mem_postorderFrom {path : List Nat} {start : Nat} {parts : List Expr} :
    path ∈ postorderFrom start parts ↔
      ∃ place rest part, path = (start + place) :: rest ∧ parts[place]? = some part ∧
        rest ∈ part.postorder := by
  induction parts generalizing start with
  | nil => simp [postorderFrom]
  | cons first parts ih =>
      rw [postorderFrom, List.mem_append, List.mem_map, ih]
      constructor
      · intro present
        rcases present with ⟨rest, inFirst, rfl⟩ | ⟨place, rest, part, rfl, atPlace, inPart⟩
        · exact ⟨0, rest, first, rfl, rfl, inFirst⟩
        · refine ⟨place + 1, rest, part, ?_, atPlace, inPart⟩
          rw [Nat.add_right_comm, Nat.add_assoc]
      · intro present
        obtain ⟨place, rest, part, rfl, atPlace, inPart⟩ := present
        cases place with
        | zero =>
            cases atPlace
            exact Or.inl ⟨rest, inPart, rfl⟩
        | succ place =>
            refine Or.inr ⟨place, rest, part, ?_, atPlace, inPart⟩
            rw [Nat.add_right_comm, Nat.add_assoc]

theorem mem_postorder {expr : Expr} {path : List Nat} :
    path ∈ expr.postorder ↔ ∃ part, expr.partAt? path = some part := by
  induction expr using partInduction generalizing path with
  | step expr ih =>
      rw [postorder_eq, List.mem_append, List.mem_singleton, mem_postorderFrom]
      constructor
      · intro present
        rcases present with ⟨place, rest, part, rfl, atPlace, inPart⟩ | rfl
        · obtain ⟨inner, found⟩ := (ih part (List.mem_of_getElem? atPlace)).mp inPart
          refine ⟨inner, ?_⟩
          rw [Nat.zero_add, partAt?, atPlace, Option.bind_some, found]
        · exact ⟨expr, rfl⟩
      · intro present
        obtain ⟨inner, found⟩ := present
        cases path with
        | nil => exact Or.inr rfl
        | cons place rest =>
            obtain ⟨part, atPlace, inPart⟩ := Option.bind_eq_some_iff.mp found
            have below := (ih part (List.mem_of_getElem? atPlace)).mpr ⟨inner, inPart⟩
            exact Or.inl ⟨place, rest, part, by rw [Nat.zero_add], atPlace, below⟩

private theorem pairwise_postorderFrom {start : Nat} {parts : List Expr}
    (ordered : ∀ part ∈ parts, part.postorder.Pairwise Before) :
    (postorderFrom start parts).Pairwise Before := by
  induction parts generalizing start with
  | nil => exact List.Pairwise.nil
  | cons first parts ih =>
      rw [postorderFrom, List.pairwise_append]
      refine ⟨?_, ih fun part inRest => ordered part (List.mem_cons_of_mem first inRest), ?_⟩
      · exact (ordered first List.mem_cons_self).map _ fun _ _ => Before.further start
      · intro path inFirst other inRest
        obtain ⟨rest, _, rfl⟩ := List.mem_map.mp inFirst
        obtain ⟨place, otherRest, _, rfl, _, _⟩ := mem_postorderFrom.mp inRest
        exact .left _ _ (by omega)

/-- Post-order goes from left to right and from the inside out. -/
theorem pairwise_postorder (expr : Expr) : expr.postorder.Pairwise Before := by
  induction expr using partInduction with
  | step expr ih =>
      rw [postorder_eq, List.pairwise_append]
      refine ⟨pairwise_postorderFrom ih, List.pairwise_singleton _ _, ?_⟩
      intro path present other last
      obtain ⟨_, _, _, rfl, _, _⟩ := mem_postorderFrom.mp present
      rw [List.mem_singleton.mp last]
      exact .inside _ _

/-! ### Numbers -/

def countBelow (expr : Expr) : Nat := (postorderFrom 0 expr.parts).length

private theorem length_postorderFrom (place : Nat) (parts : List Expr) :
    (postorderFrom place parts).length = (postorderFrom 0 parts).length := by
  induction parts generalizing place with
  | nil => rfl
  | cons part parts ih =>
      rw [postorderFrom, postorderFrom, List.length_append, List.length_append, List.length_map,
        List.length_map, ih (place + 1), ih (0 + 1)]

theorem length_postorderFrom_cons (place : Nat) (part : Expr) (parts : List Expr) :
    (postorderFrom place (part :: parts)).length =
      part.postorder.length + (postorderFrom 0 parts).length := by
  rw [postorderFrom, List.length_append, List.length_map, length_postorderFrom]

theorem length_postorder (expr : Expr) : expr.postorder.length = expr.countBelow + 1 := by
  rw [postorder_eq, List.length_append]
  rfl

def ListedFrom (whole : Expr) (path : List Nat) (start : Nat) (listed : List (List Nat)) : Prop :=
  ∀ index rest, listed[index]? = some rest → whole.postorder[start + index]? = some (path ++ rest)

namespace ListedFrom

variable {whole : Expr} {path : List Nat} {start : Nat} {first second : List (List Nat)}

theorem self (expr : Expr) : expr.ListedFrom [] 0 expr.postorder := by
  intro index rest found
  rw [Nat.zero_add, List.nil_append]
  exact found

theorem left (listed : whole.ListedFrom path start (first ++ second)) :
    whole.ListedFrom path start first := by
  intro index rest found
  apply listed
  rw [List.getElem?_append_left (List.getElem?_eq_some_iff.mp found).1]
  exact found

theorem right (listed : whole.ListedFrom path start (first ++ second)) :
    whole.ListedFrom path (start + first.length) second := by
  intro index rest found
  rw [Nat.add_assoc]
  apply listed
  rw [List.getElem?_append_right (Nat.le_add_right _ _), Nat.add_sub_cancel_left]
  exact found

theorem inside {place : Nat} {listed : List (List Nat)}
    (atPlace : whole.ListedFrom path start (listed.map (place :: ·))) :
    whole.ListedFrom (path ++ [place]) start listed := by
  intro index rest found
  rw [List.append_assoc]
  apply atPlace
  rw [List.getElem?_map, found]
  rfl

theorem getElem?_countBelow {part : Expr} (listed : whole.ListedFrom path start part.postorder) :
    whole.postorder[start + part.countBelow]? = some path := by
  rw [listed part.countBelow [], List.append_nil]
  rw [postorder_eq, countBelow, List.getElem?_concat_length]

end ListedFrom

end FlowGraph.Expr
