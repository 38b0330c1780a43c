import FlowGraph.Proofs.Compiling
import FlowGraph.Proofs.Grouping

/-!
What the components show. There is one expression for every class of connected leftover
edges in which any edge resolves, and it holds the ends of those that do.
-/

namespace FlowGraph

open FlowGraph.Build FlowGraph.Expr

variable {workflow : Workflow}

def Workflow.HasEnd (workflow : Workflow) (edge : EdgeId) (reference : Reference) : Prop :=
  ∃ resolved, workflow.resolveEdge edge = .ok resolved ∧
    (resolved.source.map Reference.owner = some reference ∨ reference = .node resolved.target)

theorem Workflow.isOk_resolveEdge_iff {edge : EdgeId} :
    (workflow.resolveEdge edge).isOk = true ↔
      ∃ resolved, workflow.resolveEdge edge = .ok resolved := by
  cases workflow.resolveEdge edge <;> simp [Except.isOk, Except.toBool]

namespace Component

def hasResolved (workflow : Workflow) (component : Component) : Bool :=
  component.any fun entry => (workflow.resolveEdge entry.1).isOk

/-- An expression holds something, and exactly what the edges of a component that resolve
leave or enter. -/
structure Shows (workflow : Workflow) (component : Component) (expr : Expr) : Prop where
  inhabited : expr ≠ .empty
  contains_iff : ∀ reference, expr.contains reference = true ↔
    ∃ entry ∈ component, workflow.HasEnd entry.1 reference.owner

theorem hasResolved_iff {component : Component} :
    component.hasResolved workflow = true ↔
      ∃ entry ∈ component, ∃ resolved, workflow.resolveEdge entry.1 = .ok resolved := by
  rw [hasResolved, List.any_eq_true]
  exact exists_congr fun entry => and_congr_right fun _ => Workflow.isOk_resolveEdge_iff

end Component

/-! ### One component -/

namespace Build

variable {component : Component} {starts : List Reference} {expr : Expr}

theorem contains_iff_of_covers
    (within : StartsWithin workflow (component.map Prod.fst) starts)
    (covers : Covers workflow starts (component.map Prod.fst) expr) (reference : Reference) :
    expr.contains reference = true ↔
      ∃ entry ∈ component, workflow.HasEnd entry.1 reference.owner := by
  constructor
  · intro inside
    have origin : ∃ edge ∈ component.map Prod.fst, workflow.HasEnd edge reference.owner := by
      rcases (covers.formed.contains_iff reference).mp inside with isHead | ⟨leaving, inLinks⟩
      · rcases (covers.heads _).mp isHead with isStart | ⟨edge, inScope, target, resolves, same⟩
        · obtain ⟨edge, inScope, isOwner⟩ := within _ isStart
          obtain ⟨leaving, target, resolves, owner⟩ := sourceOwner?_eq_some.mp isOwner
          exact ⟨edge, inScope, _, resolves, Or.inl (congrArg some owner)⟩
        · exact ⟨edge, inScope, _, resolves, Or.inr same⟩
      · obtain ⟨edge, inScope, target, resolves, same⟩ := (covers.links _).mp inLinks
        exact ⟨edge, inScope, _, resolves, Or.inr same⟩
    rcases origin with ⟨edge, inScope, hasEnd⟩
    obtain ⟨entry, present, rfl⟩ := List.mem_map.mp inScope
    exact ⟨entry, present, hasEnd⟩
  · rintro ⟨entry, present, ⟨source, target⟩, resolves, isEnd⟩
    have inScope : entry.1 ∈ component.map Prod.fst := List.mem_map_of_mem present
    cases source with
    | none =>
        have isTarget : reference.owner = .node target := isEnd.resolve_left nofun
        have isHead := (covers.heads (.node target)).mpr
          (Or.inr ⟨entry.1, inScope, target, resolves, rfl⟩)
        exact (covers.formed.contains_iff reference).mpr (Or.inl (isTarget ▸ isHead))
    | some leaving =>
        have inLinks := (covers.links (leaving, .node target)).mpr
          ⟨entry.1, inScope, target, resolves, rfl⟩
        rcases isEnd with isSource | isTarget
        · rw [← contains_owner, ← Option.some.inj isSource, contains_owner]
          exact contains_of_mem_links inLinks
        · exact (covers.formed.contains_iff reference).mpr (Or.inr ⟨leaving, isTarget ▸ inLinks⟩)

theorem ne_empty_iff_of_covers (within : StartsWithin workflow (component.map Prod.fst) starts)
    (covers : Covers workflow starts (component.map Prod.fst) expr) :
    expr ≠ .empty ↔ component.hasResolved workflow = true := by
  have contains := contains_iff_of_covers within covers
  rw [Component.hasResolved_iff]
  constructor
  · intro inhabited
    obtain ⟨leaving, exit⟩ := (covers.formed.resolve_left inhabited).exists_mem_exits
    obtain ⟨entry, present, resolved, resolves, _⟩ :=
      (contains leaving).mp (contains_of_mem_exits exit rfl)
    exact ⟨entry, present, resolved, resolves⟩
  · rintro ⟨entry, present, resolved, resolves⟩ isEmpty
    have holds := (contains (.node resolved.target)).mpr
      ⟨entry, present, resolved, resolves, Or.inr rfl⟩
    rw [isEmpty] at holds
    cases holds

private theorem shows_componentsFrom (coherent : workflow.Coherent) {groups : List Component}
    (sound : ∀ group ∈ groups, (group.map Prod.fst).Nodup ∧
      ∀ edge ∈ group.map Prod.fst, edge ∉ workflow.entryEdges)
    (index : Nat) {progress : Progress} (allPlaced : AllPlaced workflow progress.events.toList) :
    List.Forall₂ (Component.Shows workflow) (groups.filter (Component.hasResolved workflow))
      (componentsFrom workflow progress index groups).1 := by
  induction groups generalizing index progress with
  | nil => exact .nil
  | cons group groups ih =>
      obtain ⟨distinct, noEntry⟩ := sound group List.mem_cons_self
      have soundLater := fun other present => sound other (List.mem_cons_of_mem group present)
      obtain ⟨starts, within, covers, placed⟩ :=
        covers_component coherent distinct noEntry allPlaced
      have inhabited := ne_empty_iff_of_covers within covers
      have omitted : AllPlaced workflow ((Build.component workflow group progress).progress.record
          (.componentOmitted index)).events.toList := placed.record nofun nofun
      rw [componentsFrom, List.filter_cons]
      dsimp only
      by_cases resolved : group.hasResolved workflow = true
      · have shown := inhabited.mpr resolved
        rw [if_pos resolved, if_neg (mt (isEmpty_eq_true_iff _).mp shown)]
        exact .cons ⟨shown, contains_iff_of_covers within covers⟩
          (ih soundLater (index + 1) placed)
      · have isEmpty := not_not.mp (mt inhabited.mp resolved)
        rw [if_neg resolved, if_pos ((isEmpty_eq_true_iff _).mpr isEmpty)]
        exact ih soundLater (index + 1) omitted

/-! ### The leftover edges -/

theorem mem_leftover_entry (coherent : workflow.Coherent) {progress : Progress} {edge : EdgeId}
    {entry : Edge} :
    (edge, entry) ∈ leftover workflow progress ↔
      workflow.edge? edge = some entry ∧ edge ∉ progress.processed := by
  rw [leftover, List.mem_filter, Arena.mem_enumerate (Nat.le_of_lt coherent.edgesFit)]
  simp [Workflow.edge?, Progress.isProcessed]

private theorem pairwise_leftover (coherent : workflow.Coherent) (progress : Progress) :
    (leftover workflow progress).Pairwise fun left right => left.1.number < right.1.number := by
  have inOrder := Arena.pairwise_ids (Nat.le_of_lt coherent.edgesFit)
  rw [← Arena.map_fst_enumerate] at inOrder
  exact (List.pairwise_map.mp inOrder).filter _

end Build

/-- The expressions of a compilation, class by class. -/
theorem Workflow.shows_compile (coherent : workflow.Coherent) :
    List.Forall₂ (Component.Shows workflow)
      ((Component.partition (leftover workflow workflow.mainBuild.progress)).filter
        (Component.hasResolved workflow))
      workflow.compile.components := by
  obtain ⟨sound, entryDone⟩ := sound_mainBuild coherent
  obtain ⟨started, isStart, same⟩ := components_eq workflow workflow.mainBuild.progress
  have startedPlaced : AllPlaced workflow started.events.toList := by
    rcases isStart with rfl | ⟨_, _, rfl⟩
    · exact sound.allPlaced
    · exact sound.allPlaced.record nofun nofun
  have shown := shows_componentsFrom coherent
    (fun group present => nodup_and_noEntry_of_mem_partition coherent entryDone present)
    0 startedPlaced
  rw [← same] at shown
  exact shown

/-! ### No node in two components -/

private theorem Workflow.exists_mem_ends_of_hasEnd {edge : EdgeId} {entry : Edge} {node : NodeId}
    (found : workflow.edge? edge = some entry) (hasEnd : workflow.HasEnd edge (.node node)) :
    ∃ ident ∈ Component.ends (edge, entry), workflow.lookupNode? ident = some node := by
  obtain ⟨⟨source, target⟩, resolves, isSource | isTarget⟩ := hasEnd
  · obtain ⟨other, isOther, origin⟩ := origin_of_resolveEdge resolves
    cases found.symm.trans isOther
    rcases origin with ⟨_, rfl⟩ | ⟨trigger, _, rfl⟩ | ⟨owner, leaving, origin, exits, rfl⟩
    · cases isSource
    · cases isSource
    · rw [Option.map_some, owner_of_exitThrough? exits] at isSource
      cases isSource
      exact ⟨entry.sourceNode, by simp [Component.ends], lookupNode?_of_origin? origin⟩
  · cases isTarget
    obtain ⟨other, isOther, declared⟩ := target_of_resolveEdge resolves
    cases found.symm.trans isOther
    exact ⟨entry.targetNode, by simp [Component.ends], declared⟩

theorem Component.Shows.disjoint (coherent : workflow.Coherent) {progress : Progress}
    {group other : Component} {left right : Expr} (ofLeft : Shows workflow group left)
    (ofRight : Shows workflow other right)
    (inGroup : group ⊆ leftover workflow progress) (inOther : other ⊆ leftover workflow progress)
    (apart : ∀ first ∈ group, ∀ second ∈ other, ¬ SharesEnd first second) (node : NodeId) :
    ¬ (left.contains (.node node) = true ∧ right.contains (.node node) = true) := by
  rintro ⟨inLeft, inRight⟩
  obtain ⟨first, isFirst, firstEnd⟩ := (ofLeft.contains_iff _).mp inLeft
  obtain ⟨second, isSecond, secondEnd⟩ := (ofRight.contains_iff _).mp inRight
  obtain ⟨ident, ofFirst, declared⟩ := Workflow.exists_mem_ends_of_hasEnd
    ((mem_leftover_entry coherent).mp (inGroup isFirst)).1 firstEnd
  obtain ⟨another, ofSecond, alsoDeclared⟩ := Workflow.exists_mem_ends_of_hasEnd
    ((mem_leftover_entry coherent).mp (inOther isSecond)).1 secondEnd
  have same : ident = another := coherent.ident_eq_of_lookupNode? declared alsoDeclared
  exact apart first isFirst second isSecond ⟨ident, ofFirst, same ▸ ofSecond⟩

/-- Expressions of groups that have no raw id in common have no node in common. -/
theorem Component.pairwise_disjoint (coherent : workflow.Coherent) {progress : Progress}
    {groups : List Component} {exprs : List Expr}
    (shown : List.Forall₂ (Shows workflow) groups exprs)
    (inside : ∀ group ∈ groups, group ⊆ leftover workflow progress)
    (apart : groups.Pairwise fun group other =>
      ∀ left ∈ group, ∀ right ∈ other, ¬ SharesEnd left right) :
    exprs.Pairwise fun left right =>
      ∀ node, ¬ (left.contains (.node node) = true ∧ right.contains (.node node) = true) := by
  induction shown with
  | nil => exact .nil
  | @cons group left groups exprs ofGroup ofGroups ih =>
      obtain ⟨apartFirst, apartLater⟩ := List.pairwise_cons.mp apart
      have inGroup := inside group List.mem_cons_self
      have inLater := fun other present => inside other (List.mem_cons_of_mem group present)
      refine .cons ?_ (ih inLater apartLater)
      intro right isRight
      obtain ⟨other, isOther, ofOther⟩ := exists_partner ofGroups isRight
      exact ofGroup.disjoint coherent ofOther inGroup (inLater other isOther)
        (apartFirst other isOther)

/-! ### Main result -/

/-- The edges that the main build leaves over are grouped into the classes of edges that are
connected by raw ids, declared or not. The classes come in the order of their first edges,
and each in document order. Every class in which any edge resolves has an expression, which
holds the ends of those edges, and no other class has one. No node is in two of them. -/
theorem compile_shows_every_class {document : Document} {workflow : Workflow}
    (loaded : Workflow.load document = .ok workflow) :
    (∀ edge entry, (edge, entry) ∈ leftover workflow workflow.mainBuild.progress ↔
      workflow.edge? edge = some entry ∧ edge ∉ workflow.mainBuild.progress.processed) ∧
    (leftover workflow workflow.mainBuild.progress).Pairwise
      (fun left right => left.1.number < right.1.number) ∧
    Component.AreClasses (leftover workflow workflow.mainBuild.progress)
      (Component.partition (leftover workflow workflow.mainBuild.progress)) ∧
    List.Forall₂ (Component.Shows workflow)
      ((Component.partition (leftover workflow workflow.mainBuild.progress)).filter
        (Component.hasResolved workflow))
      workflow.compile.components ∧
    workflow.compile.components.Pairwise fun left right =>
      ∀ node, ¬ (left.contains (.node node) = true ∧ right.contains (.node node) = true) := by
  have coherent := Workflow.coherent_of_load loaded
  have classes := Component.areClasses_partition (leftover workflow workflow.mainBuild.progress)
  have shown := Workflow.shows_compile coherent
  refine ⟨fun edge entry => mem_leftover_entry coherent, pairwise_leftover coherent _, classes,
    shown, ?_⟩
  apply Component.pairwise_disjoint coherent shown
  · intro group present
    exact (classes.inOrder group (List.mem_filter.mp present).1).subset
  · exact (Component.pairwise_partition _).filter _

def scattered : Document :=
  ((((((Document.ofEntrypoint "entry").addNodes ["a", "x", "y", "p", "q"]).addEdge "entry"
    "a").addEdge "x" "y").addEdge "lost" "gone").addEdge "y" "ghost").addEdge "ghost" "a" |>.addEdge
      "p" "q"

/-- The two classes in which an edge resolves have an expression each, with no node in common. -/
theorem compile_shows_every_class_scattered :
    ∃ workflow, Workflow.load scattered = .ok workflow ∧
      (Component.partition (leftover workflow workflow.mainBuild.progress)).map
        (List.map Prod.fst) = [[⟨1⟩, ⟨3⟩, ⟨4⟩], [⟨2⟩], [⟨5⟩]] ∧
      workflow.compile.components =
        [.sequence (.node ⟨1⟩) (.node ⟨2⟩), .sequence (.node ⟨3⟩) (.node ⟨4⟩)] ∧
      Component.AreClasses (leftover workflow workflow.mainBuild.progress)
        (Component.partition (leftover workflow workflow.mainBuild.progress)) ∧
      (∃ group ∈ Component.partition (leftover workflow workflow.mainBuild.progress),
        Component.Shows workflow group (.sequence (.node ⟨1⟩) (.node ⟨2⟩))) ∧
      ∀ node, ¬ ((Expr.sequence (.node ⟨1⟩) (.node ⟨2⟩)).contains (.node node) = true ∧
        (Expr.sequence (.node ⟨3⟩) (.node ⟨4⟩)).contains (.node node) = true) := by
  have evaluated : ((Workflow.load scattered).toOption.map fun workflow =>
      ((Component.partition (leftover workflow workflow.mainBuild.progress)).map
        (List.map Prod.fst), workflow.compile.components)) =
      some ([[⟨1⟩, ⟨3⟩, ⟨4⟩], [⟨2⟩], [⟨5⟩]],
        [.sequence (.node ⟨1⟩) (.node ⟨2⟩), .sequence (.node ⟨3⟩) (.node ⟨4⟩)]) := by
    decide +kernel
  obtain ⟨workflow, loaded, views⟩ := Workflow.exists_load_of_map_toOption evaluated
  obtain ⟨classes, components⟩ := Prod.mk.inj views
  obtain ⟨_, _, areClasses, shown, disjoint⟩ := compile_shows_every_class loaded
  rw [components] at shown disjoint
  obtain ⟨group, isGroup, ofGroup⟩ := exists_partner shown List.mem_cons_self
  exact ⟨workflow, loaded, classes, components, areClasses,
    ⟨group, (List.mem_filter.mp isGroup).1, ofGroup⟩,
    (List.pairwise_cons.mp disjoint).1 _ (List.mem_singleton_self _)⟩

end FlowGraph
