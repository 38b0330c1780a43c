import FlowGraph.Proofs.CallOrder

/-!
What renderers make of an expression. Every renderer gets the calls that the expression
stands for, one after the other and each with the outputs of earlier calls. The first call
that fails ends the work, and so does the first empty part.
-/

namespace FlowGraph

open FlowGraph.Expr

section Rendering

variable {State Error Output First Second : Type}

def Rendering.outcomeFrom (state : State) (work : Rendering State Error First) :
    Except (RealizeError Error) First × State :=
  work.run.run state

namespace Rendering

theorem outcomeFrom_bind_of_ok {state next : State} {work : Rendering State Error First}
    {first : First} (onward : First → Rendering State Error Second)
    (isOk : outcomeFrom state work = (.ok first, next)) :
    outcomeFrom state (work >>= onward) = outcomeFrom next (onward first) := by
  change StateT.run (ExceptT.run (work >>= onward)) state = _
  rw [ExceptT.run_bind, StateT.run_bind, show StateT.run (ExceptT.run work) state = _ from isOk]
  rfl

private theorem outcomeFrom_bind_of_error {state next : State} {work : Rendering State Error First}
    {error : RealizeError Error} (onward : First → Rendering State Error Second)
    (failed : outcomeFrom state work = (.error error, next)) :
    outcomeFrom state (work >>= onward) = (.error error, next) := by
  change StateT.run (ExceptT.run (work >>= onward)) state = _
  rw [ExceptT.run_bind, StateT.run_bind, show StateT.run (ExceptT.run work) state = _ from failed]
  rfl

theorem exists_of_outcomeFrom_bind {state final : State} {work : Rendering State Error First}
    {onward : First → Rendering State Error Second} {second : Second}
    (isOk : outcomeFrom state (work >>= onward) = (.ok second, final)) :
    ∃ first next, outcomeFrom state work = (.ok first, next) ∧
      outcomeFrom next (onward first) = (.ok second, final) := by
  rcases ran : outcomeFrom state work with ⟨error | first, next⟩
  · rw [outcomeFrom_bind_of_error onward ran] at isOk
    cases isOk
  · rw [outcomeFrom_bind_of_ok onward ran] at isOk
    exact ⟨first, next, rfl, isOk⟩

end Rendering

namespace Renderer

variable (renderer : Renderer State Error Output)

inductive Answers (outputs : List Output) : RenderCall → Rendering State Error Output → Prop where
  | reference (reference : Reference) :
      Answers outputs (.reference reference) (renderer.reference reference)
  | port (node : NodeId) (port : PortId) :
      Answers outputs (.port node port) (renderer.port node port)
  | sequence {first second : Nat} {firstOutput secondOutput : Output}
      (isFirst : outputs[first]? = some firstOutput)
      (isSecond : outputs[second]? = some secondOutput) :
      Answers outputs (.sequence first second) (renderer.sequence firstOutput secondOutput)
  | set {numbers : List Nat} {members : List Output} (wrapped : Bool)
      (areMembers : List.Forall₂ (fun number member => outputs[number]? = some member)
        numbers members) :
      Answers outputs (.set numbers wrapped) (renderer.set members wrapped)

/-- What comes of making calls one after the other, until one of them fails or there is none to
make. The outputs are kept from call to call. -/
inductive Follows : List Output → List (Option RenderCall) → State →
    Except (RealizeError Error) (List Output) × State → Prop where
  | done (outputs : List Output) (state : State) : Follows outputs [] state (.ok outputs, state)
  | vacant (outputs : List Output) (rest : List (Option RenderCall)) (state : State) :
      Follows outputs (none :: rest) state (.error .emptyExpression, state)
  | failed {outputs : List Output} {call : RenderCall} {work : Rendering State Error Output}
      {state next : State} {error : RealizeError Error} (rest : List (Option RenderCall))
      (answers : renderer.Answers outputs call work)
      (fails : Rendering.outcomeFrom state work = (.error error, next)) :
      Follows outputs (some call :: rest) state (.error error, next)
  | answered {outputs : List Output} {call : RenderCall} {work : Rendering State Error Output}
      {state next : State} {output : Output} {rest : List (Option RenderCall)}
      {result : Except (RealizeError Error) (List Output) × State}
      (answers : renderer.Answers outputs call work)
      (succeeds : Rendering.outcomeFrom state work = (.ok output, next))
      (onward : Follows (outputs ++ [output]) rest next result) :
      Follows outputs (some call :: rest) state result

/-- Calls that are made whatever comes behind them: their outputs are those of a list, of which
the last ones are the results, or a call fails and none behind it is made. -/
structure MakesCalls {Result : Type} (outputs : List Output) (calls : List (Option RenderCall))
    (state : State) (outcome : Except (RealizeError Error) Result × State)
    (produces : List Output → Result → Prop) : Prop where
  ok : ∀ {result next}, outcome = (.ok result, next) →
    ∃ made, produces made result ∧ ∀ rest ending,
      renderer.Follows (outputs ++ made) rest next ending →
        renderer.Follows outputs (calls ++ rest) state ending
  error : ∀ {error next}, outcome = (.error error, next) → ∀ rest,
    renderer.Follows outputs (calls ++ rest) state (.error error, next)

namespace MakesCalls

variable {renderer} {outputs : List Output} {state : State}

theorem single {call : RenderCall} {work : Rendering State Error Output}
    (answers : renderer.Answers outputs call work) :
    renderer.MakesCalls outputs [some call] state (Rendering.outcomeFrom state work)
      fun made output => made = [output] where
  ok := by
    intro output next succeeds
    exact ⟨[output], rfl, fun rest ending onward => .answered answers succeeds onward⟩
  error := fun fails rest => .failed rest answers fails

theorem mono {Result : Type} {calls : List (Option RenderCall)}
    {outcome : Except (RealizeError Error) Result × State}
    {produces ends : List Output → Result → Prop}
    (makes : renderer.MakesCalls outputs calls state outcome produces)
    (changed : ∀ made result, produces made result → ends made result) :
    renderer.MakesCalls outputs calls state outcome ends where
  ok := by
    intro result next isOk
    obtain ⟨made, produced, follows⟩ := makes.ok isOk
    exact ⟨made, changed made result produced, follows⟩
  error := makes.error

theorem bind {First Second : Type} {calls others : List (Option RenderCall)}
    {work : Rendering State Error First} {onward : First → Rendering State Error Second}
    {produces : List Output → First → Prop} {ends : List Output → Second → Prop}
    (ofWork : renderer.MakesCalls outputs calls state (Rendering.outcomeFrom state work) produces)
    (ofRest : ∀ made first next, produces made first →
      renderer.MakesCalls (outputs ++ made) others next (Rendering.outcomeFrom next (onward first))
        fun more second => ends (made ++ more) second) :
    renderer.MakesCalls outputs (calls ++ others) state
      (Rendering.outcomeFrom state (work >>= onward)) ends := by
  rcases ran : Rendering.outcomeFrom state work with ⟨error | first, next⟩
  · rw [Rendering.outcomeFrom_bind_of_error onward ran]
    refine ⟨nofun, ?_⟩
    intro _ _ same rest
    cases same
    rw [List.append_assoc]
    exact ofWork.error ran (others ++ rest)
  · rw [Rendering.outcomeFrom_bind_of_ok onward ran]
    obtain ⟨made, produced, follows⟩ := ofWork.ok ran
    have later := ofRest made first next produced
    constructor
    · intro second final isOk
      obtain ⟨more, ended, followsOn⟩ := later.ok isOk
      refine ⟨made ++ more, ended, ?_⟩
      intro rest ending lasts
      rw [List.append_assoc]
      apply follows
      apply followsOn
      rw [List.append_assoc]
      exact lasts
    · intro error final fails rest
      rw [List.append_assoc]
      exact follows _ _ (later.error fails rest)

theorem map {First Second : Type} {calls : List (Option RenderCall)}
    {work : Rendering State Error First} {change : First → Second}
    {produces : List Output → First → Prop} {ends : List Output → Second → Prop}
    (ofWork : renderer.MakesCalls outputs calls state (Rendering.outcomeFrom state work) produces)
    (changed : ∀ made first, produces made first → ends made (change first)) :
    renderer.MakesCalls outputs calls state
      (Rendering.outcomeFrom state (work >>= fun first => pure (change first))) ends := by
  rw [← List.append_nil calls]
  refine ofWork.bind ?_
  intro made first next produced
  constructor
  · intro second final isOk
    cases isOk
    refine ⟨[], ?_, ?_⟩
    · rw [List.append_nil]
      exact changed made first produced
    · intro rest ending lasts
      rw [List.append_nil] at lasts
      exact lasts
  · intro error final fails
    cases fails

end MakesCalls

def EndsIn (expr : Expr) (made : List Output) (output : Output) : Prop :=
  ∃ before, made = before ++ [output] ∧ before.length = expr.countBelow

theorem EndsIn.length {expr : Expr} {made : List Output} {output : Output}
    (ends : EndsIn expr made output) : made.length = expr.postorder.length := by
  obtain ⟨before, rfl, length⟩ := ends
  rw [List.length_append, length, length_postorder]
  rfl

private theorem EndsIn.getElem? {expr : Expr} {made : List Output} {output : Output}
    (ends : EndsIn expr made output) (outputs more : List Output) :
    (outputs ++ made ++ more)[outputs.length + expr.countBelow]? = some output := by
  obtain ⟨before, rfl, length⟩ := ends
  rw [← length, ← List.length_append, ← List.append_assoc, List.append_assoc (outputs ++ before),
    List.getElem?_append_right (Nat.le_refl _), Nat.sub_self]
  rfl

private theorem makesCalls_realizeMembers {members : List Expr}
    (ofMembers : ∀ member ∈ members, ∀ outputs state,
      renderer.MakesCalls outputs (member.callsFrom outputs.length false) state
        (Rendering.outcomeFrom state (renderer.realizeAfter false member)) (EndsIn member))
    (outputs : List Output) (state : State) :
    renderer.MakesCalls outputs (memberCallsFrom outputs.length members) state
      (Rendering.outcomeFrom state (renderer.realizeMembers members)) fun made results =>
        made.length = (postorderFrom 0 members).length ∧
          List.Forall₂ (fun number result => (outputs ++ made)[number]? = some result)
            (numbersFrom outputs.length members) results := by
  induction members generalizing outputs state with
  | nil =>
      constructor
      · intro results next isOk
        cases isOk
        refine ⟨[], ⟨rfl, .nil⟩, ?_⟩
        intro rest ending lasts
        rw [List.append_nil] at lasts
        exact lasts
      · intro error next fails
        cases fails
  | cons member members ih =>
      rw [realizeMembers, memberCallsFrom]
      refine (ofMembers member List.mem_cons_self outputs state).bind ?_
      intro made output next ends
      have behind := ih (fun other inRest => ofMembers other (List.mem_cons_of_mem member inRest))
        (outputs ++ made) next
      rw [List.length_append, ends.length] at behind
      refine behind.map ?_
      intro more results produced
      refine ⟨?_, .cons ?_ ?_⟩
      · rw [List.length_append, ends.length, produced.1, length_postorderFrom_cons]
      · rw [← List.append_assoc]
        exact ends.getElem? outputs more
      · rw [← List.append_assoc]
        exact produced.2

private theorem makesCalls_leaf {leaf : Expr} {call : RenderCall}
    {work : Rendering State Error Output} {outputs : List Output} (state : State)
    (single : leaf.parts = []) (answers : renderer.Answers outputs call work) :
    renderer.MakesCalls outputs [some call] state (Rendering.outcomeFrom state work)
      (EndsIn leaf) := by
  refine (MakesCalls.single answers).mono ?_
  rintro _ output rfl
  exact ⟨[], rfl, by rw [countBelow, single]; rfl⟩

/-- Realization makes the calls for all parts of an expression, one after the other. -/
theorem makesCalls_realizeAfter (followsSet : Bool) (expr : Expr) (outputs : List Output)
    (state : State) :
    renderer.MakesCalls outputs (expr.callsFrom outputs.length followsSet) state
      (Rendering.outcomeFrom state (renderer.realizeAfter followsSet expr)) (EndsIn expr) := by
  induction expr generalizing followsSet outputs state with
  | empty =>
      constructor
      · intro output next isOk
        cases isOk
      · intro error next fails rest
        cases fails
        exact .vacant outputs rest state
  | node nodeId => exact renderer.makesCalls_leaf state rfl (.reference _)
  | port nodeId portId => exact renderer.makesCalls_leaf state rfl (.port nodeId portId)
  | trigger triggerId => exact renderer.makesCalls_leaf state rfl (.reference _)
  | sequence first second ofFirst ofSecond =>
      rw [realizeAfter, callsFrom, List.append_assoc]
      refine (ofFirst false outputs state).bind ?_
      intro firstMade firstOutput next firstEnds
      have firstLength : outputs.length + first.postorder.length =
          (outputs ++ firstMade).length := by
        rw [List.length_append, firstEnds.length]
      rw [firstLength]
      refine (ofSecond first.isSet (outputs ++ firstMade) next).bind ?_
      intro secondMade secondOutput last secondEnds
      have isFirst := firstEnds.getElem? outputs secondMade
      have isSecond := secondEnds.getElem? (outputs ++ firstMade) []
      rw [List.append_nil] at isSecond
      refine (MakesCalls.single (.sequence isFirst isSecond)).mono ?_
      rintro _ output rfl
      refine ⟨firstMade ++ secondMade, by rw [List.append_assoc], ?_⟩
      rw [List.length_append, firstEnds.length, secondEnds.length, countBelow, parts,
        length_postorderFrom_cons, length_postorderFrom_cons]
      rfl
  | set members ofMembers =>
      rw [realizeAfter, callsFrom]
      refine (renderer.makesCalls_realizeMembers (fun member present outputs state =>
        ofMembers member present false outputs state) outputs state).bind ?_
      intro made results next produced
      refine (MakesCalls.single (.set followsSet produced.2)).mono ?_
      rintro _ output rfl
      exact ⟨made, rfl, by rw [produced.1, countBelow, parts]⟩

/-- For every renderer, the outcome of realization is that of making the calls: the output of
the last one, or the first failure. -/
theorem follows_run (expr : Expr) (state : State) :
    (∃ before output next, renderer.Follows [] expr.calls state (.ok (before ++ [output]), next) ∧
        renderer.run expr state = (.ok output, next)) ∨
      ∃ error next, renderer.Follows [] expr.calls state (.error error, next) ∧
        renderer.run expr state = (.error error, next) := by
  have makes := renderer.makesCalls_realizeAfter false expr [] state
  have isRun : renderer.run expr state =
      Rendering.outcomeFrom state (renderer.realizeAfter false expr) := rfl
  rw [isRun]
  rcases ran : Rendering.outcomeFrom state (renderer.realizeAfter false expr) with
    ⟨error | output, next⟩
  · have follows := makes.error ran []
    rw [List.append_nil] at follows
    exact Or.inr ⟨error, next, follows, rfl⟩
  · obtain ⟨_, ⟨before, rfl, _⟩, follows⟩ := makes.ok ran
    have ended := follows [] _ (.done _ next)
    rw [List.append_nil] at ended
    exact Or.inl ⟨before, output, next, ended, rfl⟩

end Renderer

end Rendering

end FlowGraph
