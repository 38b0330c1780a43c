import FlowGraph.Proofs.PartOrder
import FlowGraph.Realization.Recording
import Mathlib.Data.List.Forall2

/-!
The calls that an expression stands for: one for every part that is not empty, in
post-order, in which other parts are given by their numbers. The calls are computed by
recursion and described part by part.
-/

namespace FlowGraph

open FlowGraph.Expr

/-! ### The call for a part -/

namespace Expr

/-- The part at a path is the second operand of a sequence, and the first one is a set. -/
def FollowsSet (whole : Expr) (path : List Nat) : Prop :=
  ∃ front first second, path = front ++ [1] ∧
    whole.partAt? front = some (.sequence first second) ∧ first.isSet = true

/-- What a renderer is called with for the part at a path, where other parts are given by their
numbers in post-order. There is no call for an empty part. -/
def IsCallAt (whole : Expr) (path : List Nat) : Option RenderCall → Prop
  | none => whole.partAt? path = some .empty
  | some (.reference reference) =>
      whole.partAt? path = some (.ofReference reference) ∧
        ∀ nodeId portId, reference ≠ .port nodeId portId
  | some (.port nodeId portId) => whole.partAt? path = some (.port nodeId portId)
  | some (.sequence first second) =>
      (∃ left right, whole.partAt? path = some (.sequence left right)) ∧
        whole.postorder[first]? = some (path ++ [0]) ∧
        whole.postorder[second]? = some (path ++ [1])
  | some (.set numbers wrapped) =>
      (∃ members, whole.partAt? path = some (.set members) ∧ numbers.length = members.length) ∧
        (∀ place number, numbers[place]? = some number →
          whole.postorder[number]? = some (path ++ [place])) ∧
        (wrapped = true ↔ whole.FollowsSet path)

def numbersFrom (start : Nat) : List Expr → List Nat
  | [] => []
  | part :: parts =>
      (start + part.countBelow) :: numbersFrom (start + part.postorder.length) parts

mutual

def callsFrom (start : Nat) (followsSet : Bool) : Expr → List (Option RenderCall)
  | .empty => [none]
  | .node nodeId => [some (.reference (.node nodeId))]
  | .port nodeId portId => [some (.port nodeId portId)]
  | .trigger triggerId => [some (.reference (.trigger triggerId))]
  | .sequence first second =>
      first.callsFrom start false ++
        second.callsFrom (start + first.postorder.length) first.isSet ++
        [some (.sequence (start + first.countBelow)
          (start + first.postorder.length + second.countBelow))]
  | .set members =>
      memberCallsFrom start members ++ [some (.set (numbersFrom start members) followsSet)]

def memberCallsFrom (start : Nat) : List Expr → List (Option RenderCall)
  | [] => []
  | member :: members =>
      member.callsFrom start false ++ memberCallsFrom (start + member.postorder.length) members

end

def calls (expr : Expr) : List (Option RenderCall) := expr.callsFrom 0 false

private theorem length_numbersFrom (start : Nat) (parts : List Expr) :
    (numbersFrom start parts).length = parts.length := by
  induction parts generalizing start with
  | nil => rfl
  | cons part parts ih => rw [numbersFrom, List.length_cons, ih, List.length_cons]

private theorem followsSet_append {whole : Expr} {path : List Nat} {place : Nat} :
    whole.FollowsSet (path ++ [place]) ↔ place = 1 ∧ ∃ first second,
      whole.partAt? path = some (.sequence first second) ∧ first.isSet = true := by
  constructor
  · intro follows
    obtain ⟨front, first, second, isPath, isPart, isSet⟩ := follows
    obtain ⟨rfl, isLast⟩ := List.append_inj' isPath rfl
    cases isLast
    exact ⟨rfl, first, second, isPart, isSet⟩
  · intro follows
    obtain ⟨rfl, first, second, isPart, isSet⟩ := follows
    exact ⟨path, first, second, rfl, isPart, isSet⟩

private theorem partAt?_concat {whole expr : Expr} {path : List Nat}
    (isPart : whole.partAt? path = some expr) (place : Nat) :
    whole.partAt? (path ++ [place]) = expr.parts[place]? := by
  rw [partAt?_append, isPart, Option.bind_some, partAt?]
  cases expr.parts[place]? <;> rfl

private theorem getElem?_numbersFrom {whole : Expr} {path : List Nat} {start first : Nat}
    {parts : List Expr} (listed : whole.ListedFrom path start (postorderFrom first parts)) :
    ∀ place number, (numbersFrom start parts)[place]? = some number →
      whole.postorder[number]? = some (path ++ [first + place]) := by
  induction parts generalizing start first with
  | nil => exact nofun
  | cons part parts ih =>
      rw [postorderFrom] at listed
      intro place number found
      cases place with
      | zero =>
          cases found
          exact listed.left.inside.getElem?_countBelow
      | succ place =>
          have inRest := listed.right
          rw [List.length_map] at inRest
          rw [ih inRest place number found, Nat.add_right_comm, Nat.add_assoc]

private theorem forall₂_leaf {whole leaf : Expr} {path : List Nat} {call : Option RenderCall}
    (single : leaf.postorder = [[]]) (isCall : whole.IsCallAt path call) :
    List.Forall₂ whole.IsCallAt (leaf.postorder.map (path ++ ·)) [call] := by
  rw [single, List.map_singleton, List.append_nil]
  exact .cons isCall .nil

private theorem forall₂_memberCallsFrom {whole expr : Expr} {path : List Nat}
    {before members : List Expr} {start : Nat} (isPart : whole.partAt? path = some expr)
    (isSet : expr = .set (before ++ members))
    (listed : whole.ListedFrom path start (postorderFrom before.length members))
    (ofMembers : ∀ member ∈ members, ∀ path start followsSet,
      whole.partAt? path = some member → whole.ListedFrom path start member.postorder →
        (followsSet = true ↔ whole.FollowsSet path) →
          List.Forall₂ whole.IsCallAt (member.postorder.map (path ++ ·))
            (member.callsFrom start followsSet)) :
    List.Forall₂ whole.IsCallAt ((postorderFrom before.length members).map (path ++ ·))
      (memberCallsFrom start members) := by
  induction members generalizing before start with
  | nil => exact .nil
  | cons member members ih =>
      rw [postorderFrom] at listed
      rw [postorderFrom, List.map_append, memberCallsFrom]
      have atPlace : whole.partAt? (path ++ [before.length]) = some member := by
        rw [partAt?_concat isPart, isSet, parts, List.getElem?_append_right (Nat.le_refl _),
          Nat.sub_self]
        rfl
      have noneBefore : false = true ↔ whole.FollowsSet (path ++ [before.length]) := by
        rw [followsSet_append, isPart, isSet]
        simp
      have ofMember :=
        ofMembers member List.mem_cons_self _ _ _ atPlace listed.left.inside noneBefore
      have memberListed : expr = .set ((before ++ [member]) ++ members) := by
        rw [isSet, List.append_assoc]
        rfl
      have restListed : whole.ListedFrom path (start + member.postorder.length)
          (postorderFrom (before ++ [member]).length members) := by
        have inRest := listed.right
        rw [List.length_map] at inRest
        rw [List.length_append, List.length_singleton]
        exact inRest
      have ofRest := ih memberListed restListed
        fun other inRest => ofMembers other (List.mem_cons_of_mem member inRest)
      rw [List.length_append, List.length_singleton] at ofRest
      refine List.rel_append ?_ ofRest
      rw [List.map_map]
      have paths : ((path ++ ·) ∘ (before.length :: ·)) =
          ((path ++ [before.length]) ++ · : List Nat → List Nat) := by
        funext rest
        simp
      rw [paths]
      exact ofMember

private theorem forall₂_callsFrom {whole expr : Expr} {path : List Nat} {start : Nat}
    {followsSet : Bool} (isPart : whole.partAt? path = some expr)
    (listed : whole.ListedFrom path start expr.postorder)
    (wrapped : followsSet = true ↔ whole.FollowsSet path) :
    List.Forall₂ whole.IsCallAt (expr.postorder.map (path ++ ·))
      (expr.callsFrom start followsSet) := by
  induction expr generalizing path start followsSet with
  | empty => exact forall₂_leaf rfl isPart
  | node nodeId => exact forall₂_leaf rfl ⟨isPart, nofun⟩
  | port nodeId portId => exact forall₂_leaf rfl isPart
  | trigger triggerId => exact forall₂_leaf rfl ⟨isPart, nofun⟩
  | sequence first second ofFirst ofSecond =>
      rw [postorder] at listed
      have inFirst := listed.left.left.inside
      have inSecond := listed.left.right.inside
      rw [List.length_map] at inSecond
      have firstAlone : false = true ↔ whole.FollowsSet (path ++ [0]) := by
        simp [followsSet_append]
      have secondFollows : first.isSet = true ↔ whole.FollowsSet (path ++ [1]) := by
        simp [followsSet_append, isPart]
      have firstCalls := ofFirst ((partAt?_concat isPart 0).trans rfl) inFirst firstAlone
      have secondCalls := ofSecond ((partAt?_concat isPart 1).trans rfl) inSecond secondFollows
      rw [postorder, List.map_append, List.map_append, callsFrom, List.map_map, List.map_map,
        List.map_singleton, List.append_nil]
      refine List.rel_append (List.rel_append ?_ ?_) (.cons ⟨⟨first, second, isPart⟩,
        inFirst.getElem?_countBelow, inSecond.getElem?_countBelow⟩ .nil)
      · simpa [Function.comp_def] using firstCalls
      · simpa [Function.comp_def] using secondCalls
  | set members ofMembers =>
      rw [postorder] at listed
      rw [postorder, List.map_append, callsFrom, List.map_singleton, List.append_nil]
      refine List.rel_append ?_ (.cons
        ⟨⟨members, isPart, length_numbersFrom start members⟩, ?_, wrapped⟩ .nil)
      · exact forall₂_memberCallsFrom (List.nil_append members ▸ isPart) rfl listed.left
          fun member present _ _ _ => ofMembers member present
      · intro place number found
        rw [getElem?_numbersFrom listed.left place number found, Nat.zero_add]

/-- The calls for all parts of an expression are made in post-order. -/
theorem forall₂_calls (expr : Expr) : List.Forall₂ expr.IsCallAt expr.postorder expr.calls := by
  have notBehind : false = true ↔ expr.FollowsSet [] := by
    simp [FollowsSet]
  simpa [calls] using forall₂_callsFrom rfl (.self expr) notBehind

theorem length_calls (expr : Expr) : expr.calls.length = expr.postorder.length :=
  expr.forall₂_calls.length_eq.symm

theorem none_mem_calls_iff (expr : Expr) :
    none ∈ expr.calls ↔ ∃ path, expr.partAt? path = some .empty := by
  constructor
  · intro missing
    obtain ⟨number, atNumber⟩ := List.mem_iff_getElem?.mp missing
    have inside := (List.getElem?_eq_some_iff.mp atNumber).1
    have isCall := expr.forall₂_calls.get (expr.length_calls ▸ inside) inside
    rw [List.get_eq_getElem, List.get_eq_getElem,
      (List.getElem?_eq_some_iff.mp atNumber).2] at isCall
    exact ⟨_, isCall⟩
  · intro vacant
    obtain ⟨path, isPart⟩ := vacant
    have present : path ∈ expr.postorder := mem_postorder.mpr ⟨_, isPart⟩
    obtain ⟨number, inside, rfl⟩ := List.mem_iff_getElem.mp present
    have alsoInside : number < expr.calls.length := expr.length_calls.symm ▸ inside
    have isCall := expr.forall₂_calls.get inside alsoInside
    rw [List.get_eq_getElem, List.get_eq_getElem] at isCall
    cases atNumber : expr.calls[number] with
    | none => exact atNumber ▸ List.getElem_mem alsoInside
    | some call =>
        rw [atNumber] at isCall
        cases call with
        | reference reference =>
            have isLeaf := isPart.symm.trans isCall.1
            cases reference <;> cases isLeaf
        | port nodeId portId => cases isPart.symm.trans isCall
        | sequence first second =>
            obtain ⟨⟨_, _, isSequence⟩, _⟩ := isCall
            cases isPart.symm.trans isSequence
        | set numbers wrapped =>
            obtain ⟨⟨_, isSet, _⟩, _⟩ := isCall
            cases isPart.symm.trans isSet

end Expr

end FlowGraph
