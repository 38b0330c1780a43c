import FlowGraph.Proofs.StoredLeaves
import FlowGraph.Realization.GraphText

/-!
The text of an expression, by its parts. The renderer of graph text keeps no state, so the
text of a sequence is made of the texts of its operands and that of a set of those of its
members. An expression has a text unless a piece is empty or a display text is missing.
-/

namespace FlowGraph.GraphText

open FlowGraph.Expr

variable {workflow : Workflow}

/-! ### Rendering without a state -/

section Outcome

variable {First Second : Type}

def outcome (work : Rendering Unit MissingText First) : Except (RealizeError MissingText) First :=
  (work.run.run ()).1

private theorem outcome_bind (work : Rendering Unit MissingText First)
    (next : First → Rendering Unit MissingText Second) :
    outcome (work >>= next) = (outcome work).bind fun result => outcome (next result) := by
  change (StateT.run (ExceptT.run (work >>= next)) ()).1 = _
  rw [ExceptT.run_bind, StateT.run_bind]
  rcases ran : StateT.run (ExceptT.run work) () with ⟨error | result, _⟩
  · simp only [outcome, ran]
    rfl
  · simp only [outcome, ran]
    rfl

private theorem outcome_pure (result : First) :
    outcome (pure result : Rendering Unit MissingText First) = .ok result :=
  rfl

end Outcome

private theorem bind_eq_ok_iff {Failure First Second : Type} {work : Except Failure First}
    {next : First → Except Failure Second} {result : Second} :
    work.bind next = .ok result ↔ ∃ first, work = .ok first ∧ next first = .ok result := by
  cases work <;> simp [Except.bind]

/-- Something is made of every element of a list exactly when it is made of each on its own. -/
theorem mapM_eq_ok_iff {Failure First Second : Type} {make : First → Except Failure Second}
    {firsts : List First} {seconds : List Second} :
    firsts.mapM make = .ok seconds ↔
      List.Forall₂ (fun first second => make first = .ok second) firsts seconds := by
  induction firsts generalizing seconds with
  | nil => cases seconds <;> simp [pure, Except.pure]
  | cons first rest ih =>
      rw [List.mapM_cons]
      cases made : make first with
      | error failure => cases seconds <;> simp [bind, Except.bind, made]
      | ok second =>
          cases all : rest.mapM make with
          | error failure => cases seconds <;> simp [bind, Except.bind, made, ← ih, all]
          | ok others =>
              cases seconds <;> simp [bind, Except.bind, pure, Except.pure, made, ← ih, all]

/-! ### Texts of leaves -/

def leafText? (workflow : Workflow) : Reference → Option String
  | .node nodeId => workflow.nodeLabel? nodeId
  | .port nodeId portId => (workflow.nodeLabel? nodeId).bind fun label =>
      (workflow.portName? portId).map (portText label)
  | .trigger triggerId => workflow.triggerLabel? triggerId

def renderAfter (workflow : Workflow) (followsSet : Bool) (expr : Expr) :
    Except (RealizeError MissingText) String :=
  outcome ((renderer workflow).realizeAfter followsSet expr)

theorem renderAfter_ofReference_eq_ok {followsSet : Bool} {reference : Reference}
    {text : String} :
    renderAfter workflow followsSet (ofReference reference) = .ok text ↔
      leafText? workflow reference = some text := by
  have required : ∀ (leaf : Expr) (found : Option String),
      outcome (require leaf found) = .ok text ↔ found = some text := by
    intro leaf found
    cases found with
    | none => exact iff_of_false (fun isOk => by cases isOk) (fun isText => by cases isText)
    | some other => simp [require, outcome_pure]
  cases reference with
  | node nodeId => exact required _ _
  | port nodeId portId =>
      rw [ofReference, renderAfter, Renderer.realizeAfter, leafText?]
      simp only [renderer, outcome_bind, outcome_pure]
      cases workflow.nodeLabel? nodeId with
      | none => exact iff_of_false (fun isOk => by cases isOk) (fun isText => by cases isText)
      | some label =>
          cases workflow.portName? portId with
          | none => exact iff_of_false (fun isOk => by cases isOk) (fun isText => by cases isText)
          | some name => simp [require, outcome_pure, Except.bind]
  | trigger triggerId => exact required _ _

/-! ### Texts of sequences and sets -/

theorem renderAfter_sequence_eq_ok {followsSet : Bool} {first second : Expr} {text : String} :
    renderAfter workflow followsSet (.sequence first second) = .ok text ↔
      ∃ firstText secondText, renderAfter workflow false first = .ok firstText ∧
        renderAfter workflow first.isSet second = .ok secondText ∧
          text = sequenceText firstText secondText := by
  rw [renderAfter, Renderer.realizeAfter, outcome_bind, bind_eq_ok_iff]
  simp only [outcome_bind, bind_eq_ok_iff]
  constructor
  · rintro ⟨firstText, ofFirst, secondText, ofSecond, joined⟩
    cases joined
    exact ⟨firstText, secondText, ofFirst, ofSecond, rfl⟩
  · rintro ⟨firstText, secondText, ofFirst, ofSecond, rfl⟩
    exact ⟨firstText, ofFirst, secondText, ofSecond, rfl⟩

private theorem outcome_realizeMembers (members : List Expr) :
    outcome ((renderer workflow).realizeMembers members) =
      members.mapM (renderAfter workflow false) := by
  induction members with
  | nil => rfl
  | cons member members ih =>
      rw [Renderer.realizeMembers, outcome_bind, List.mapM_cons]
      change _ = (renderAfter workflow false member).bind _
      refine congrArg _ (funext fun text => ?_)
      rw [outcome_bind, ih]
      rfl

theorem renderAfter_set_eq_ok {followsSet : Bool} {members : List Expr} {text : String} :
    renderAfter workflow followsSet (.set members) = .ok text ↔
      ∃ texts, List.Forall₂ (fun member text => renderAfter workflow false member = .ok text)
        members texts ∧ text = setText texts followsSet := by
  rw [renderAfter, Renderer.realizeAfter, outcome_bind, outcome_realizeMembers, bind_eq_ok_iff]
  simp only [mapM_eq_ok_iff]
  constructor
  · rintro ⟨texts, ofMembers, joined⟩
    cases joined
    exact ⟨texts, ofMembers, rfl⟩
  · rintro ⟨texts, ofMembers, rfl⟩
    exact ⟨texts, ofMembers, rfl⟩

/-! ### Expressions with a text -/

theorem exists_texts {members : List Expr} {make : Expr → Except (RealizeError MissingText) String}
    (each : ∀ member ∈ members, ∃ text, make member = .ok text) :
    ∃ texts, members.mapM make = .ok texts := by
  simp only [mapM_eq_ok_iff]
  induction members with
  | nil => exact ⟨[], .nil⟩
  | cons member members ih =>
      obtain ⟨text, made⟩ := each member List.mem_cons_self
      obtain ⟨texts, all⟩ := ih fun other later => each other (List.mem_cons_of_mem member later)
      exact ⟨text :: texts, .cons made all⟩

private theorem exists_renderAfter_ofReference (reference : Reference) (followsSet : Bool)
    (found : ∃ text, leafText? workflow reference = some text) :
    ∃ text, renderAfter workflow followsSet (ofReference reference) = .ok text := by
  obtain ⟨text, isText⟩ := found
  exact ⟨text, renderAfter_ofReference_eq_ok.mpr isText⟩

/-- A solid expression has a text if each of its leaves has one. -/
theorem exists_renderAfter {expr : Expr} (solid : expr.Solid)
    (readable : ∀ leaf ∈ expr.leaves, ∃ text, leafText? workflow leaf = some text)
    (followsSet : Bool) : ∃ text, renderAfter workflow followsSet expr = .ok text := by
  induction solid generalizing followsSet with
  | node nodeId =>
      exact exists_renderAfter_ofReference (.node nodeId) _
        (readable _ (by simp [leaves]))
  | port nodeId portId =>
      exact exists_renderAfter_ofReference (.port nodeId portId) _
        (readable _ (by simp [leaves]))
  | trigger triggerId =>
      exact exists_renderAfter_ofReference (.trigger triggerId) _
        (readable _ (by simp [leaves]))
  | @sequence first second _ _ ihFirst ihSecond =>
      obtain ⟨firstText, ofFirst⟩ :=
        ihFirst (fun leaf isLeaf => readable leaf (List.mem_append_left _ isLeaf)) false
      obtain ⟨secondText, ofSecond⟩ :=
        ihSecond (fun leaf isLeaf => readable leaf (List.mem_append_right _ isLeaf)) first.isSet
      exact ⟨_, renderAfter_sequence_eq_ok.mpr ⟨firstText, secondText, ofFirst, ofSecond, rfl⟩⟩
  | @set members _ _ ih =>
      obtain ⟨texts, ofMembers⟩ := exists_texts fun member present =>
        ih member present
          (fun leaf isLeaf => readable leaf (mem_leavesOfAll.mpr ⟨member, present, isLeaf⟩)) false
      exact ⟨_, renderAfter_set_eq_ok.mpr ⟨texts, mapM_eq_ok_iff.mp ofMembers, rfl⟩⟩

end FlowGraph.GraphText
