import FlowGraph.Proofs.BuildInvariant

/-!
The normal form of expressions: sequences lean to the left, and sets are flat, without
repetitions and without leaves that another member begins with. Every rewrite keeps it,
so every expression that is ever built has it.
-/

namespace FlowGraph

open FlowGraph.Expr

namespace Expr

variable {hasDefaultExit : NodeId → Bool}

/-! ### Normal expressions -/

/-- Members that a flat set may have. -/
structure Flat (hasDefaultExit : NodeId → Bool) (members : List Expr) : Prop where
  noSets : ∀ member ∈ members, member.isSet = false
  distinct : members.Nodup
  /-- No leaf is an entry point of another member. -/
  noneSubsumed : ∀ member ∈ members, ∀ other ∈ members, other ≠ member →
    ∀ reference, member.reference? = some reference →
      reference ∉ other.entries hasDefaultExit

/-- A normal expression that is not empty. -/
inductive Normal (hasDefaultExit : NodeId → Bool) : Expr → Prop where
  | node (nodeId : NodeId) : Normal hasDefaultExit (.node nodeId)
  | port (nodeId : NodeId) (portId : PortId) : Normal hasDefaultExit (.port nodeId portId)
  | trigger (triggerId : TriggerId) : Normal hasDefaultExit (.trigger triggerId)
  /-- No sequence has a sequence as its second operand. -/
  | sequence {first second : Expr} (leansLeft : second.isSequence = false)
      (ofFirst : Normal hasDefaultExit first) (ofSecond : Normal hasDefaultExit second) :
      Normal hasDefaultExit (.sequence first second)
  | set {members : List Expr} (several : 2 ≤ members.length) (flat : Flat hasDefaultExit members)
      (ofMembers : ∀ member ∈ members, Normal hasDefaultExit member) :
      Normal hasDefaultExit (.set members)

def EmptyOrNormal (hasDefaultExit : NodeId → Bool) (expr : Expr) : Prop :=
  expr = .empty ∨ expr.Normal hasDefaultExit

private theorem normal_ofReference (hasDefaultExit : NodeId → Bool) (reference : Reference) :
    (ofReference reference).Normal hasDefaultExit := by
  cases reference with
  | node nodeId => exact .node nodeId
  | port nodeId portId => exact .port nodeId portId
  | trigger triggerId => exact .trigger triggerId

theorem Normal.solid {expr : Expr} (normal : expr.Normal hasDefaultExit) : expr.Solid := by
  induction normal with
  | node nodeId => exact .node nodeId
  | port nodeId portId => exact .port nodeId portId
  | trigger triggerId => exact .trigger triggerId
  | sequence _ _ _ ihFirst ihSecond => exact .sequence ihFirst ihSecond
  | set several _ _ ih =>
      refine .set ?_ ih
      intro none
      rw [none] at several
      exact absurd several (by decide)

/-! ### Sequences -/

theorem Normal.andThen {first second : Expr} (ofFirst : first.Normal hasDefaultExit)
    (ofSecond : second.Normal hasDefaultExit) : (first.andThen second).Normal hasDefaultExit := by
  induction ofSecond generalizing first with
  | sequence _ _ _ ihSecond ihThird =>
      rw [andThen_sequence _ _ ofFirst.solid.ne_empty]
      exact ihThird (ihSecond ofFirst)
  | set several flat ofMembers _ =>
      rw [andThen_of_isStep ofFirst.solid.ne_empty ⟨Expr.noConfusion, rfl⟩]
      exact .sequence rfl ofFirst (.set several flat ofMembers)
  | _ =>
      rw [andThen_of_isStep ofFirst.solid.ne_empty ⟨Expr.noConfusion, rfl⟩]
      exact .sequence rfl ofFirst (by constructor)

/-! ### Flat sets -/

private theorem nodup_eraseDups (items : List Expr) : items.eraseDups.Nodup := by
  cases items with
  | nil => exact List.nodup_nil
  | cons item rest =>
      rw [List.eraseDups_cons, List.nodup_cons]
      refine ⟨?_, nodup_eraseDups _⟩
      simp [List.mem_eraseDups]
termination_by items.length
decreasing_by exact Nat.lt_succ_of_le (List.length_filter_le _ _)

theorem Normal.of_mem_spread {expr : Expr} (normal : expr.Normal hasDefaultExit) :
    ∀ piece ∈ expr.spread, piece.Normal hasDefaultExit ∧ piece.isSet = false := by
  induction normal with
  | set _ _ _ ih =>
      intro piece inMembers
      obtain ⟨member, present, inMember⟩ := mem_spreadAll.mp inMembers
      exact ih member present piece inMember
  | sequence leansLeft ofFirst ofSecond _ _ =>
      intro piece alone
      rw [List.mem_singleton.mp alone]
      exact ⟨.sequence leansLeft ofFirst ofSecond, rfl⟩
  | _ =>
      intro piece alone
      rw [List.mem_singleton.mp alone]
      exact ⟨by constructor, rfl⟩

private theorem normal_of_mem_inlined {members : List Expr}
    (normal : ∀ member ∈ members, member ≠ .empty → member.Normal hasDefaultExit) :
    ∀ piece ∈ inlined members, piece.Normal hasDefaultExit ∧ piece.isSet = false := by
  intro piece present
  obtain ⟨member, inMembers, inMember⟩ := mem_inlined.mp present
  have occupied : member ≠ .empty := by
    intro vacant
    rw [vacant] at inMember
    cases inMember
  exact (normal member inMembers occupied).of_mem_spread piece inMember

private theorem not_mem_entries_of_subsumed_eq_false {members : List Expr} {member other : Expr}
    {reference : Reference} (survives : subsumed hasDefaultExit members member = false)
    (present : other ∈ members) (different : other ≠ member)
    (leaf : member.reference? = some reference) : reference ∉ other.entries hasDefaultExit := by
  intro entry
  rw [subsumed, leaf, List.any_eq_false] at survives
  exact survives other present (by simp [different, entry])

private theorem flat_of_survivors {members survivors : List Expr}
    (normal : ∀ member ∈ members, member ≠ .empty → member.Normal hasDefaultExit)
    (chosen : survivors.Sublist (inlined members))
    (survive : ∀ piece ∈ survivors, subsumed hasDefaultExit (inlined members) piece = false) :
    Flat hasDefaultExit survivors where
  noSets := fun piece present => (normal_of_mem_inlined normal piece (chosen.subset present)).2
  distinct := (nodup_eraseDups _).sublist chosen
  noneSubsumed := fun piece present _ inSurvivors different _ leaf =>
    not_mem_entries_of_subsumed_eq_false (survive piece present) (chosen.subset inSurvivors)
      different leaf

private theorem normal_ofMembers {members : List Expr} (flat : Flat hasDefaultExit members)
    (normal : ∀ member ∈ members, member.Normal hasDefaultExit)
    (occupied : ofMembers members ≠ .empty) : (ofMembers members).Normal hasDefaultExit := by
  match members with
  | [] => exact absurd rfl occupied
  | [member] => exact normal member List.mem_cons_self
  | first :: second :: rest => exact .set (Nat.le_add_left 2 rest.length) flat normal

private theorem normal_flatten {members : List Expr}
    (normal : ∀ member ∈ members, member ≠ .empty → member.Normal hasDefaultExit)
    (occupied : flatten hasDefaultExit members ≠ .empty) :
    (flatten hasDefaultExit members).Normal hasDefaultExit := by
  apply normal_ofMembers _ _ occupied
  · exact flat_of_survivors normal List.filter_sublist fun piece isKept => (mem_kept.mp isKept).2
  · intro piece isKept
    exact (normal_of_mem_inlined normal piece (mem_kept.mp isKept).1).1

private theorem normal_branching {members : List Expr} {set : Expr} (inhabited : members ≠ [])
    (normal : ∀ member ∈ members, member.Normal hasDefaultExit)
    (formed : branching? hasDefaultExit members = some set) : set.Normal hasDefaultExit := by
  have solid := solid_branching inhabited (fun member present => (normal member present).solid)
    formed
  obtain ⟨noneSubsumed, rfl⟩ := branching?_cases formed
  have occupied : ∀ member ∈ members, member ≠ .empty → member.Normal hasDefaultExit :=
    fun member present _ => normal member present
  apply normal_ofMembers _ _ solid.ne_empty
  · exact flat_of_survivors occupied (List.Sublist.refl _) noneSubsumed
  · exact fun piece present => (normal_of_mem_inlined occupied piece present).1

/-- All rewrites keep the normal form. -/
theorem rewriteInvariant_normal (hasDefaultExit : NodeId → Bool) :
    RewriteInvariant hasDefaultExit (Normal hasDefaultExit) where
  solid := Normal.solid
  operands := by
    intro first second normal
    cases normal with
    | sequence _ ofFirst ofSecond => exact ⟨ofFirst, ofSecond⟩
  members := by
    intro members normal
    cases normal with
    | set _ _ ofMembers => exact ofMembers
  andThen := Normal.andThen
  flatten := normal_flatten
  branching := normal_branching

end Expr

/-! ### Folding -/

private theorem Surroundings.emptyOrNormal_foldAtTop {surroundings : Surroundings}
    {source : Option Reference} {target : NodeId} {expr folded : Expr}
    (normal : expr.EmptyOrNormal surroundings.hasDefaultExit)
    (found : surroundings.foldAtTop source target expr = some folded) :
    folded.EmptyOrNormal surroundings.hasDefaultExit := by
  rcases normal with rfl | normal
  · cases found
    exact Or.inr (.node target)
  · exact Or.inr ((rewriteInvariant_normal surroundings.hasDefaultExit).fold (.node target)
      (fun leaving _ => normal_ofReference _ leaving) normal found)

/-! ### Building -/

private theorem buildInvariant_normal (workflow : Workflow) :
    BuildInvariant workflow (Normal workflow.hasDefaultExit) where
  toRewriteInvariant := rewriteInvariant_normal workflow.hasDefaultExit
  target := fun _ => .node _
  source := fun _ => ⟨normal_ofReference _ _, normal_ofReference _ _⟩
  trigger := fun _ => .trigger _

/-! ### Main result -/

/-- Folding an edge keeps the normal form. Every expression on the way of the main build
and of a component's build is normal, and so are those that compilation ends with, of
which only the main one may be empty. -/
theorem compile_keeps_normal_form (workflow : Workflow) :
    (∀ (resolved : ResolvedEdge) (expr folded : Expr),
        expr.EmptyOrNormal workflow.hasDefaultExit →
          workflow.surroundings.foldAtTop resolved.source resolved.target expr = some folded →
            folded.EmptyOrNormal workflow.hasDefaultExit) ∧
      (∀ progress build, Build.Visits workflow (Build.mainStart workflow progress) build →
        build.expr.EmptyOrNormal workflow.hasDefaultExit) ∧
      (∀ component progress build,
        Build.Visits workflow (Build.ofRoots workflow component progress) build →
          build.expr.EmptyOrNormal workflow.hasDefaultExit) ∧
      workflow.compile.main.EmptyOrNormal workflow.hasDefaultExit ∧
      ∀ expr ∈ workflow.compile.components,
        expr.EmptyOrNormal workflow.hasDefaultExit ∧ expr ≠ .empty := by
  have invariant := buildInvariant_normal workflow
  refine ⟨?_, ?_, ?_, invariant.main, ?_⟩
  · intro resolved expr folded normal found
    exact Surroundings.emptyOrNormal_foldAtTop normal found
  · intro progress build visited
    exact invariant.visits visited (invariant.mainStart progress)
  · intro component progress build visited
    exact invariant.visits visited (invariant.ofRoots component progress)
  · intro expr present
    have normal := invariant.components present
    exact ⟨Or.inr normal, normal.solid.ne_empty⟩

/-- The branch through `a` does not begin with `b`, so a bare `b` may stand beside it, also
when the edge back to `a` has been put behind the branch. -/
theorem compile_keeps_normal_form_twoCycle :
    ∃ workflow, Workflow.load twoCycle = .ok workflow ∧
      (Expr.set [.sequence (.node ⟨0⟩) (.node ⟨1⟩), .node ⟨1⟩]).EmptyOrNormal
        workflow.hasDefaultExit ∧
      workflow.surroundings.foldAtTop (some (.node ⟨1⟩)) ⟨0⟩
          (.set [.sequence (.node ⟨0⟩) (.node ⟨1⟩), .node ⟨1⟩]) =
        some (.set [.sequence (.sequence (.node ⟨0⟩) (.node ⟨1⟩)) (.node ⟨0⟩), .node ⟨1⟩]) ∧
      (Expr.set [.sequence (.sequence (.node ⟨0⟩) (.node ⟨1⟩)) (.node ⟨0⟩),
        .node ⟨1⟩]).EmptyOrNormal workflow.hasDefaultExit ∧
      workflow.compile.main.EmptyOrNormal workflow.hasDefaultExit := by
  have evaluated : ((Workflow.load twoCycle).toOption.map fun workflow =>
      workflow.surroundings.foldAtTop (some (.node ⟨1⟩)) ⟨0⟩
        (.set [.sequence (.node ⟨0⟩) (.node ⟨1⟩), .node ⟨1⟩])) =
      some (some (.set
        [.sequence (.sequence (.node ⟨0⟩) (.node ⟨1⟩)) (.node ⟨0⟩), .node ⟨1⟩])) := by
    decide +kernel
  obtain ⟨workflow, loaded, found⟩ := Workflow.exists_load_of_map_toOption evaluated
  have flat : Flat workflow.hasDefaultExit
      [.sequence (.node ⟨0⟩) (.node ⟨1⟩), .node ⟨1⟩] := by
    refine ⟨by decide, by decide, ?_⟩
    intro member present other inMembers different reference leaf entry
    rcases List.mem_cons.mp present with rfl | last
    · cases leaf
    · cases List.mem_singleton.mp last
      cases leaf
      rcases List.mem_cons.mp inMembers with rfl | alone
      · simp [entries] at entry
      · exact different (List.mem_singleton.mp alone)
  have normal : (Expr.set [.sequence (.node ⟨0⟩) (.node ⟨1⟩), .node ⟨1⟩]).Normal
      workflow.hasDefaultExit := by
    apply Normal.set (by decide) flat
    intro member present
    rcases List.mem_cons.mp present with rfl | last
    · exact .sequence rfl (.node _) (.node _)
    · rw [List.mem_singleton.mp last]
      exact .node _
  obtain ⟨folding, _, _, main, _⟩ := compile_keeps_normal_form workflow
  exact ⟨workflow, loaded, Or.inr normal, found,
    folding ⟨some (.node ⟨1⟩), ⟨0⟩⟩ _ _ (Or.inr normal) found, main⟩

end FlowGraph
