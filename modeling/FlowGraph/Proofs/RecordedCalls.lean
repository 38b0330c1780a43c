import FlowGraph.Proofs.MakingCalls

/-!
Calls that are written down. The recording renderer writes down the calls that an expression
stands for, as far as they are made, and from the calls alone the expression is put together
again.
-/

namespace FlowGraph

open FlowGraph.Expr

/-! ### Recorded calls -/

/-- The calls up to the first part for which there is none. -/
def callsMade : List (Option RenderCall) → List RenderCall
  | [] => []
  | none :: _ => []
  | some call :: rest => call :: callsMade rest

private theorem map_some_callsMade {calls : List (Option RenderCall)} (complete : none ∉ calls) :
    (callsMade calls).map some = calls := by
  induction calls with
  | nil => rfl
  | cons call rest ih =>
      rw [List.mem_cons, not_or] at complete
      cases call with
      | none => exact absurd rfl complete.1
      | some call => rw [callsMade, List.map_cons, ih complete.2]

namespace Recording

variable {failAt : Option Nat}

private theorem outcomeFrom_call (failAt : Option Nat) (entry : RenderCall)
    (made : List RenderCall) : Rendering.outcomeFrom made (call failAt entry) =
      if failAt = some made.length then (.error (.rendering ⟨made.length⟩), made)
      else (.ok made.length, made ++ [entry]) := by
  have read : Rendering.outcomeFrom made (get : Rendering (List RenderCall) RenderFault _) =
      (.ok made, made) := rfl
  rw [call, Rendering.outcomeFrom_bind_of_ok _ read]
  split
  · rfl
  · rfl

private theorem eq_of_getElem?_range {size place number : Nat}
    (found : (List.range size)[place]? = some number) : number = place := by
  obtain ⟨inside, same⟩ := List.getElem?_eq_some_iff.mp found
  rw [← same, List.getElem_range]

private theorem eq_call_of_answers {size : Nat} {entry : RenderCall}
    {work : Rendering (List RenderCall) RenderFault Nat}
    (answers : (renderer failAt).Answers (List.range size) entry work) :
    work = call failAt entry := by
  cases answers with
  | reference reference => rfl
  | port node port => rfl
  | sequence isFirst isSecond =>
      rw [eq_of_getElem?_range isFirst, eq_of_getElem?_range isSecond]
      rfl
  | @set numbers members wrapped areMembers =>
      have same : numbers = members := by
        rw [← List.forall₂_eq_eq_eq]
        exact areMembers.imp fun _ _ found => (eq_of_getElem?_range found).symm
      rw [same]
      rfl

/-- What the recording renderer makes of calls behind those that it has written down. Either it
fails at one of them, or it writes them all down. -/
theorem follows_cases {calls : List (Option RenderCall)} {outputs : List Nat}
    {made : List RenderCall}
    {result : Except (RealizeError RenderFault) (List Nat) × List RenderCall}
    (follows : (renderer failAt).Follows outputs calls made result)
    (numbered : outputs = List.range made.length)
    (notYet : ∀ place, failAt = some place → made.length ≤ place) :
    (∃ place, failAt = some place ∧ place < (made ++ callsMade calls).length ∧
        result = (.error (.rendering ⟨place⟩), (made ++ callsMade calls).take place)) ∨
      (∀ place, failAt = some place → (made ++ callsMade calls).length ≤ place) ∧
        result = (if none ∈ calls then .error .emptyExpression
          else .ok (List.range (made.length + calls.length)), made ++ callsMade calls) := by
  induction follows with
  | done outputs made =>
      rw [callsMade, List.append_nil]
      exact Or.inr ⟨notYet, by rw [numbered]; rfl⟩
  | vacant outputs rest made =>
      rw [callsMade, List.append_nil]
      exact Or.inr ⟨notYet, by rw [if_pos List.mem_cons_self]⟩
  | @failed outputs entry work made next error rest answers fails =>
      rw [numbered] at answers
      rw [eq_call_of_answers answers, outcomeFrom_call] at fails
      split at fails
      · rename_i atCall
        cases fails
        refine Or.inl ⟨made.length, atCall, ?_, ?_⟩
        · rw [callsMade, List.length_append, List.length_cons]
          omega
        · rw [List.take_left]
      · cases fails
  | @answered outputs entry work made next output rest result answers succeeds _ ih =>
      rw [numbered] at answers
      rw [eq_call_of_answers answers, outcomeFrom_call] at succeeds
      split at succeeds
      · cases succeeds
      · rename_i goesOn
        cases succeeds
        have longer : made ++ [entry] ++ callsMade rest =
            made ++ callsMade (some entry :: rest) := by
          rw [List.append_assoc]
          rfl
        rw [longer] at ih
        have later := ih (by rw [numbered, List.length_append]; exact List.range_succ.symm) (by
          intro place isPlace
          have before := notYet place isPlace
          have other : place ≠ made.length := fun same => goesOn (same ▸ isPlace)
          rw [List.length_append, List.length_singleton]
          omega)
        rcases later with fails | ⟨noFailure, same⟩
        · exact Or.inl fails
        · refine Or.inr ⟨noFailure, ?_⟩
          have missing : none ∈ some entry :: rest ↔ none ∈ rest := by simp
          rw [same, List.length_append, List.length_singleton, List.length_cons,
            Nat.add_right_comm, Nat.add_assoc made.length]
          simp only [missing]

end Recording

private theorem Recording.run_cases (failAt : Option Nat) (expr : Expr) :
    (∃ place, failAt = some place ∧ place < (callsMade expr.calls).length ∧
        (renderer failAt).run expr [] =
          (.error (.rendering ⟨place⟩), (callsMade expr.calls).take place)) ∨
      (∀ place, failAt = some place → (callsMade expr.calls).length ≤ place) ∧
        (renderer failAt).run expr [] =
          (if none ∈ expr.calls then .error .emptyExpression else .ok expr.countBelow,
            callsMade expr.calls) := by
  have started : ∀ place, failAt = some place → ([] : List RenderCall).length ≤ place :=
    fun place _ => Nat.zero_le place
  rcases (renderer failAt).follows_run expr [] with
    ⟨before, output, next, follows, isRun⟩ | ⟨error, next, follows, isRun⟩
  · rcases follows_cases follows rfl started with ⟨_, _, _, impossible⟩ | ⟨noFailure, same⟩
    · cases impossible
    · refine Or.inr ⟨noFailure, isRun.trans ?_⟩
      rw [Prod.mk.injEq] at same
      obtain ⟨outputs, rfl⟩ := same
      split at outputs
      · cases outputs
      · rename_i complete
        rw [List.length_nil, Nat.zero_add, length_calls, length_postorder,
          List.range_succ] at outputs
        have last := (List.append_inj' (Except.ok.inj outputs) rfl).2
        rw [if_neg complete, List.nil_append, List.singleton_inj.mp last]
  · rcases follows_cases follows rfl started with ⟨place, fails, inside, same⟩ | ⟨noFailure, same⟩
    · rw [List.nil_append] at inside same
      cases same
      exact Or.inl ⟨place, fails, inside, isRun⟩
    · refine Or.inr ⟨noFailure, isRun.trans ?_⟩
      rw [Prod.mk.injEq] at same
      obtain ⟨failed, rfl⟩ := same
      split at failed
      · rename_i vacant
        cases failed
        rw [if_pos vacant, List.nil_append]
      · cases failed

/-! ### Putting an expression together again -/

/-- The expression that a call stands for, put together from those of earlier calls. -/
def RenderCall.build? (built : List Expr) : RenderCall → Option Expr
  | .reference leaf => some (.ofReference leaf)
  | .port nodeId portId => some (.port nodeId portId)
  | .sequence first second =>
      (built[first]?).bind fun firstExpr => (built[second]?).map (Expr.sequence firstExpr)
  | .set numbers _ => (numbers.mapM fun number => built[number]?).map Expr.set

def RenderCall.append? (built : List Expr) (call : RenderCall) : Option (List Expr) :=
  (call.build? built).map fun expr => built ++ [expr]

def rebuild? (calls : List RenderCall) : Option Expr :=
  (calls.foldlM RenderCall.append? []).bind List.getLast?

namespace Rebuilding

def renderer : Renderer Unit Empty Expr :=
  { reference := fun reference => pure (.ofReference reference)
    port := fun node port => pure (.port node port)
    sequence := fun first second => pure (.sequence first second)
    set := fun members _ => pure (.set members) }

private theorem eq_of_realizeMembers {members outputs : List Expr}
    (ofMembers : ∀ member ∈ members, ∀ output,
      Rendering.outcomeFrom () (renderer.realizeAfter false member) = (.ok output, ()) →
        output = member)
    (isOk : Rendering.outcomeFrom () (renderer.realizeMembers members) = (.ok outputs, ())) :
    outputs = members := by
  induction members generalizing outputs with
  | nil =>
      cases isOk
      rfl
  | cons member members ih =>
      rw [Renderer.realizeMembers] at isOk
      obtain ⟨output, _, memberOk, isOk⟩ := Rendering.exists_of_outcomeFrom_bind isOk
      obtain ⟨others, _, othersOk, isOk⟩ := Rendering.exists_of_outcomeFrom_bind isOk
      cases isOk
      rw [ofMembers member List.mem_cons_self output memberOk,
        ih (fun other inRest => ofMembers other (List.mem_cons_of_mem member inRest)) othersOk]

private theorem eq_of_realizeAfter {followsSet : Bool} {expr output : Expr}
    (isOk : Rendering.outcomeFrom () (renderer.realizeAfter followsSet expr) = (.ok output, ())) :
    output = expr := by
  induction expr generalizing followsSet output with
  | empty => cases isOk
  | sequence first second ofFirst ofSecond =>
      rw [Renderer.realizeAfter] at isOk
      obtain ⟨firstOutput, _, firstOk, isOk⟩ := Rendering.exists_of_outcomeFrom_bind isOk
      obtain ⟨secondOutput, _, secondOk, isOk⟩ := Rendering.exists_of_outcomeFrom_bind isOk
      cases isOk
      rw [ofFirst firstOk, ofSecond secondOk]
  | set members ofMembers =>
      rw [Renderer.realizeAfter] at isOk
      obtain ⟨outputs, _, membersOk, isOk⟩ := Rendering.exists_of_outcomeFrom_bind isOk
      cases isOk
      rw [eq_of_realizeMembers (fun member present output => ofMembers member present) membersOk]
  | _ =>
      cases isOk
      rfl

private theorem mapM_eq_some {built members : List Expr} {numbers : List Nat}
    (areMembers : List.Forall₂ (fun number member => built[number]? = some member)
      numbers members) : numbers.mapM (fun number => built[number]?) = some members := by
  induction areMembers with
  | nil => rfl
  | cons isFirst _ ih =>
      rw [List.mapM_cons, isFirst, ih]
      rfl

private theorem outcomeFrom_of_answers {built : List Expr} {call : RenderCall}
    {work : Rendering Unit Empty Expr} (answers : renderer.Answers built call work) :
    ∃ expr, call.build? built = some expr ∧ Rendering.outcomeFrom () work = (.ok expr, ()) := by
  cases answers with
  | reference reference => exact ⟨_, rfl, rfl⟩
  | port node port => exact ⟨_, rfl, rfl⟩
  | sequence isFirst isSecond =>
      refine ⟨_, ?_, rfl⟩
      rw [RenderCall.build?, isFirst, isSecond]
      rfl
  | set wrapped areMembers =>
      refine ⟨_, ?_, rfl⟩
      rw [RenderCall.build?, mapM_eq_some areMembers]
      rfl

private theorem foldlM_of_follows {calls : List (Option RenderCall)} {built : List Expr}
    {result : Except (RealizeError Empty) (List Expr) × Unit}
    (follows : renderer.Follows built calls () result) (complete : none ∉ calls) :
    ∃ exprs, result = (.ok exprs, ()) ∧
      (callsMade calls).foldlM RenderCall.append? built = some exprs := by
  generalize ran : () = state at follows
  induction follows with
  | done outputs state => exact ⟨outputs, rfl, rfl⟩
  | vacant outputs rest state => exact absurd List.mem_cons_self complete
  | failed rest answers fails =>
      obtain ⟨expr, _, isOk⟩ := outcomeFrom_of_answers answers
      cases isOk.symm.trans fails
  | @answered outputs call work state next output rest result answers succeeds _ ih =>
      obtain ⟨expr, isBuilt, isOk⟩ := outcomeFrom_of_answers answers
      cases isOk.symm.trans succeeds
      obtain ⟨exprs, same, folded⟩ := ih (fun missing =>
        complete (List.mem_cons_of_mem _ missing)) rfl
      refine ⟨exprs, same, ?_⟩
      rw [callsMade, List.foldlM_cons, RenderCall.append?, isBuilt]
      exact folded

end Rebuilding

/-- An expression without empty parts is put together again from its calls. -/
theorem rebuild?_callsMade {expr : Expr} (complete : none ∉ expr.calls) :
    rebuild? (callsMade expr.calls) = some expr := by
  rcases Rebuilding.renderer.follows_run expr () with
    ⟨before, output, _, follows, isOk⟩ | ⟨error, _, follows, _⟩
  · obtain ⟨exprs, same, folded⟩ := Rebuilding.foldlM_of_follows follows complete
    cases same
    rw [rebuild?, folded, Option.bind_some, List.getLast?_concat,
      Rebuilding.eq_of_realizeAfter isOk]
  · obtain ⟨exprs, same, _⟩ := Rebuilding.foldlM_of_follows follows complete
    cases same

/-! ### Main result -/

/-- Realization goes through the parts of an expression in post-order. Every renderer gets the
calls for them, one after the other and each with the outputs of the parts that it puts
together, up to the first call that fails or the first empty part. Of these calls the ones for
sets tell exactly which sets are second operands behind another set. A recording renderer
that never fails writes down all calls unless a part is empty, and the expression can be put
together again from what it writes down; one that fails at some call has written down the
calls before that one. -/
theorem realize_makes_calls_in_postorder (expr : Expr) :
    (∀ path, path ∈ expr.postorder ↔ ∃ part, expr.partAt? path = some part) ∧
      expr.postorder.Pairwise Before ∧
      List.Forall₂ expr.IsCallAt expr.postorder expr.calls ∧
      ((∀ path, expr.partAt? path ≠ some .empty) ∧
          (Recording.renderer none).run expr [] = (.ok expr.countBelow, callsMade expr.calls) ∧
          (callsMade expr.calls).map some = expr.calls ∧
          rebuild? (callsMade expr.calls) = some expr ∨
        (∃ path, expr.partAt? path = some .empty) ∧
          (Recording.renderer none).run expr [] =
            (.error .emptyExpression, callsMade expr.calls)) ∧
      (∀ call, (Recording.renderer (some call)).run expr [] =
        if call < (callsMade expr.calls).length then
          (.error (.rendering ⟨call⟩), (callsMade expr.calls).take call)
        else
          (Recording.renderer none).run expr []) ∧
      ∀ (State Error Output : Type) (renderer : Renderer State Error Output) (state : State),
        (∃ (before : List Output) (output : Output) (next : State),
            renderer.Follows [] expr.calls state (.ok (before ++ [output]), next) ∧
            renderer.run expr state = (.ok output, next)) ∨
          ∃ error next, renderer.Follows [] expr.calls state (.error error, next) ∧
            renderer.run expr state = (.error error, next) := by
  have vacant := none_mem_calls_iff expr
  refine ⟨fun path => mem_postorder, pairwise_postorder expr, forall₂_calls expr, ?_, ?_,
    fun _ _ _ renderer state => renderer.follows_run expr state⟩
  · rcases Recording.run_cases none expr with ⟨_, impossible, _⟩ | ⟨_, isRun⟩
    · cases impossible
    by_cases missing : none ∈ expr.calls
    · rw [if_pos missing] at isRun
      exact Or.inr ⟨vacant.mp missing, isRun⟩
    · rw [if_neg missing] at isRun
      refine Or.inl ⟨?_, isRun, map_some_callsMade missing, rebuild?_callsMade missing⟩
      exact fun path isEmpty => missing (vacant.mpr ⟨path, isEmpty⟩)
  · intro call
    rcases Recording.run_cases none expr with ⟨_, impossible, _⟩ | ⟨_, neverFails⟩
    · cases impossible
    rcases Recording.run_cases (some call) expr with ⟨_, isCall, inside, isRun⟩ | ⟨behind, isRun⟩
    · cases isCall
      rw [if_pos inside, isRun]
    · rw [if_neg (Nat.not_lt.mpr (behind call rfl)), isRun, neverFails]

/-- The second set is marked, since it comes right behind another one. -/
example : callsMade (Expr.sequence (.set [.node ⟨0⟩, .node ⟨1⟩]) (.set [.port ⟨2⟩ ⟨0⟩])).calls =
    [.reference (.node ⟨0⟩), .reference (.node ⟨1⟩), .set [0, 1] false, .port ⟨2⟩ ⟨0⟩,
      .set [3] true, .sequence 2 4] := by
  decide

end FlowGraph
