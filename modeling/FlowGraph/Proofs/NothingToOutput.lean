import FlowGraph.Program
import FlowGraph.Proofs.ComponentExtent
import FlowGraph.Proofs.NodePaths
import FlowGraph.Proofs.TotalRendering

/-!
When there is nothing to output. The main expression starts with the triggers that edges leave,
whether or not these edges resolve, and all else that is shown comes from edges that do. So there
is nothing to output if no edge resolves and none leaves a trigger, and only then.
-/

namespace FlowGraph

open FlowGraph.Build FlowGraph.Expr

/-! ### Empty expressions -/

private theorem Covers.eq_empty_iff {workflow : Workflow} {starts : List Reference}
    {done : List EdgeId} {expr : Expr} (covers : Covers workflow starts done expr) :
    expr = .empty ↔
      starts = [] ∧ ∀ edge ∈ done, ∀ resolved, workflow.resolveEdge edge ≠ .ok resolved := by
  constructor
  · intro isEmpty
    constructor
    · refine List.eq_nil_iff_forall_not_mem.mpr fun start isStart => ?_
      have isHead := (covers.heads start).mpr (Or.inl isStart)
      rw [isEmpty] at isHead
      cases isHead
    · intro edge isDone resolved resolves
      obtain ⟨source, target⟩ := resolved
      cases source with
      | none =>
          have isHead := (covers.heads _).mpr (Or.inr ⟨edge, isDone, target, resolves, rfl⟩)
          rw [isEmpty] at isHead
          cases isHead
      | some leaving =>
          have isLink := (covers.links (leaving, .node target)).mpr
            ⟨edge, isDone, target, resolves, rfl⟩
          rw [isEmpty] at isLink
          cases isLink
  · rintro ⟨noStart, noneResolves⟩
    by_contra occupied
    obtain ⟨leaving, isExit⟩ := (covers.formed.resolve_left occupied).exists_mem_exits
    have inside : expr.contains leaving = true := contains_of_mem_exits isExit rfl
    rcases (covers.formed.contains_iff leaving).mp inside with isHead | ⟨before, isLink⟩
    · rcases (covers.heads _).mp isHead with isStart | ⟨edge, isDone, target, resolves, _⟩
      · rw [noStart] at isStart
        cases isStart
      · exact noneResolves edge isDone _ resolves
    · obtain ⟨edge, isDone, target, resolves, _⟩ := (covers.links _).mp isLink
      exact noneResolves edge isDone _ resolves

namespace Workflow

variable {workflow : Workflow}

/-- No edge goes out from a declared trigger, wherever it leads. -/
def NoTriggerLeft (workflow : Workflow) : Prop :=
  ∀ edge entry, workflow.edge? edge = some entry → workflow.lookupTrigger? entry.sourceNode = none

private theorem entryTriggers_eq_nil_iff (coherent : workflow.Coherent) :
    entryTriggers workflow = [] ↔ workflow.NoTriggerLeft := by
  rw [List.eq_nil_iff_forall_not_mem]
  constructor
  · intro noStart edge entry found
    refine Option.eq_none_iff_forall_ne_some.mpr fun trigger declared => ?_
    have isEntry := mem_entryEdges_of_trigger coherent found declared
    exact noStart (.trigger trigger)
      (mem_entryTriggers.mpr ⟨edge, isEntry, entry, trigger, found, declared, rfl⟩)
  · intro noneLeft start isStart
    obtain ⟨edge, _, entry, trigger, found, declared, _⟩ := mem_entryTriggers.mp isStart
    rw [noneLeft edge entry found] at declared
    cases declared

private theorem components_eq_nil_iff (coherent : workflow.Coherent) :
    workflow.compile.components = [] ↔
      ∀ edge ∈ (leftover workflow workflow.mainBuild.progress).map Prod.fst,
        ∀ resolved, workflow.resolveEdge edge ≠ .ok resolved := by
  have shown := shows_compile coherent
  have grouped := Component.perm_partition (leftover workflow workflow.mainBuild.progress)
  constructor
  · intro noComponents edge isLeft resolved resolves
    obtain ⟨entry, inLeftover, rfl⟩ := List.mem_map.mp isLeft
    obtain ⟨group, isGroup, inGroup⟩ := List.mem_flatten.mp (grouped.mem_iff.mpr inLeftover)
    have isResolved := Component.hasResolved_iff.mpr ⟨entry, inGroup, resolved, resolves⟩
    rw [noComponents, List.forall₂_nil_right_iff] at shown
    have isShown := List.mem_filter.mpr ⟨isGroup, isResolved⟩
    rw [shown] at isShown
    cases isShown
  · intro noneResolves
    have noGroup : (Component.partition (leftover workflow workflow.mainBuild.progress)).filter
        (Component.hasResolved workflow) = [] := by
      rw [List.filter_eq_nil_iff]
      intro group isGroup isResolved
      obtain ⟨entry, inGroup, resolved, resolves⟩ := Component.hasResolved_iff.mp isResolved
      have inLeftover := grouped.mem_iff.mp (List.mem_flatten.mpr ⟨group, isGroup, inGroup⟩)
      exact noneResolves entry.1 (List.mem_map_of_mem inLeftover) resolved resolves
    rw [noGroup, List.forall₂_nil_left_iff] at shown
    exact shown

/-- Compilation ends with nothing if no edge resolves and none goes out from a trigger. -/
theorem compile_nothing_iff (coherent : workflow.Coherent) :
    workflow.compile.main = .empty ∧ workflow.compile.components = [] ↔
      (∀ edge resolved, workflow.resolveEdge edge ≠ .ok resolved) ∧ workflow.NoTriggerLeft := by
  have covers : Covers workflow (entryTriggers workflow)
      workflow.mainBuild.progress.processed workflow.compile.main :=
    (sound_mainBuild coherent).1.covers
  rw [covers.eq_empty_iff, components_eq_nil_iff coherent, entryTriggers_eq_nil_iff coherent]
  constructor
  · rintro ⟨⟨noneLeft, noneProcessed⟩, noneOver⟩
    refine ⟨fun edge resolved resolves => ?_, noneLeft⟩
    rcases mem_processed_or_leftover coherent resolves with isProcessed | isLeft
    · exact noneProcessed edge isProcessed resolved resolves
    · exact noneOver edge isLeft resolved resolves
  · rintro ⟨noneResolves, noneLeft⟩
    exact ⟨⟨noneLeft, fun edge _ => noneResolves edge⟩, fun edge _ => noneResolves edge⟩

/-- If no edge resolves, the main expression holds nothing but triggers that edges leave. -/
theorem leaves_main_of_noneResolves (coherent : workflow.Coherent)
    (noneResolves : ∀ edge resolved, workflow.resolveEdge edge ≠ .ok resolved) :
    ∀ leaf ∈ workflow.compile.main.leaves, ∃ edge entry trigger,
      workflow.edge? edge = some entry ∧
        workflow.lookupTrigger? entry.sourceNode = some trigger ∧ leaf = .trigger trigger := by
  have covers : Covers workflow (entryTriggers workflow)
      workflow.mainBuild.progress.processed workflow.compile.main :=
    (sound_mainBuild coherent).1.covers
  intro leaf isLeaf
  have inside := (contains_iff_leaves leaf _).mpr ⟨leaf, isLeaf, rfl⟩
  rcases (covers.formed.contains_iff leaf).mp inside with isHead | ⟨before, isLink⟩
  · rcases (covers.heads _).mp isHead with isStart | ⟨edge, _, target, resolves, _⟩
    · obtain ⟨edge, _, entry, trigger, found, declared, same⟩ := mem_entryTriggers.mp isStart
      cases leaf with
      | trigger number =>
          cases same
          exact ⟨edge, entry, trigger, found, declared, rfl⟩
      | _ => cases same
    · exact absurd resolves (noneResolves edge _)
  · obtain ⟨edge, _, target, resolves, _⟩ := (covers.links _).mp isLink
    exact absurd resolves (noneResolves edge _)

end Workflow

/-! ### The text that is shown -/

namespace Program

variable {workflow : Workflow} {compilation : Compilation} {graphs : RenderedGraphs}

private theorem graphText?_eq_none_iff (graphs : RenderedGraphs) :
    graphText? graphs true = none ↔ graphs.main = none ∧ graphs.components = [] := by
  by_cases nothing : graphs.main = none ∧ graphs.components = []
  · have absent : (graphs.main.isNone && graphs.components.isEmpty) = true := by
      rw [nothing.1, nothing.2]
      rfl
    exact iff_of_true (if_pos absent) nothing
  · have present : ¬(graphs.main.isNone && graphs.components.isEmpty) = true := by
      simpa using nothing
    refine iff_of_false ?_ nothing
    unfold graphText?
    dsimp only
    rw [if_pos rfl, if_neg present]
    split <;> exact Option.some_ne_none _

private theorem render_cases (renders : GraphText.Renders workflow compilation graphs)
    {settings : Settings} (shows : settings.showComponents = true) :
    (∃ text, render settings workflow compilation = .ok text ∧
        ¬(compilation.main = .empty ∧ compilation.components = [])) ∨
      render settings workflow compilation = .error .nothingToOutput ∧
        compilation.main = .empty ∧ compilation.components = [] := by
  have noneRendered : graphs.components = [] ↔ compilation.components = [] := by
    have sameLength := renders.components.length_eq
    rw [← List.length_eq_zero_iff, ← List.length_eq_zero_iff, sameLength]
  have nothing := graphText?_eq_none_iff graphs
  rw [renders.noMain, noneRendered] at nothing
  rw [render, renders.rendered, shows]
  dsimp only
  cases shown : graphText? graphs true with
  | none => exact Or.inr ⟨rfl, nothing.mp shown⟩
  | some text =>
      refine Or.inl ⟨text, rfl, fun isNothing => ?_⟩
      rw [nothing.mpr isNothing] at shown
      cases shown

end Program

/-! ### Main result -/

/-- With the components shown, a loaded workflow is rendered to a text, unless there is nothing
to output. That is so if no edge resolves and no edge goes out from a trigger. If no edge resolves,
but some go out from triggers, these triggers are all that is shown. -/
theorem render_fails_iff {document : Document} {workflow : Workflow}
    (loaded : Workflow.load document = .ok workflow) {settings : Program.Settings}
    (shows : settings.showComponents = true) :
    (Program.render settings workflow workflow.compile = .error .nothingToOutput ↔
        (∀ edge resolved, workflow.resolveEdge edge ≠ .ok resolved) ∧
          ∀ edge entry, workflow.edge? edge = some entry →
            workflow.lookupTrigger? entry.sourceNode = none) ∧
      ((∃ text, Program.render settings workflow workflow.compile = .ok text) ↔
        (∃ edge resolved, workflow.resolveEdge edge = .ok resolved) ∨
          ∃ edge entry trigger, workflow.edge? edge = some entry ∧
            workflow.lookupTrigger? entry.sourceNode = some trigger) ∧
      ((∀ edge resolved, workflow.resolveEdge edge ≠ .ok resolved) →
        workflow.compile.components = [] ∧
          ∀ leaf ∈ workflow.compile.main.leaves, ∃ edge entry trigger,
            workflow.edge? edge = some entry ∧
              workflow.lookupTrigger? entry.sourceNode = some trigger ∧
              leaf = .trigger trigger) := by
  have coherent := Workflow.coherent_of_load loaded
  have nothing := Workflow.compile_nothing_iff coherent
  obtain ⟨graphs, renders⟩ := Workflow.exists_renders_compile loaded
  refine ⟨?_, ?_, fun noneResolves => ⟨?_, ?_⟩⟩
  · rcases Program.render_cases renders shows with ⟨text, isText, something⟩ | ⟨fails, isNothing⟩
    · rw [isText]
      exact iff_of_false nofun (mt nothing.mpr something)
    · exact iff_of_true fails (nothing.mp isNothing)
  · have someLeft : ¬workflow.NoTriggerLeft ↔ ∃ edge entry trigger,
        workflow.edge? edge = some entry ∧
          workflow.lookupTrigger? entry.sourceNode = some trigger := by
      simp [Workflow.NoTriggerLeft, Option.ne_none_iff_exists']
    have someResolves : ¬(∀ edge resolved, workflow.resolveEdge edge ≠ .ok resolved) ↔
        ∃ edge resolved, workflow.resolveEdge edge = .ok resolved := by
      simp
    rw [← someLeft, ← someResolves, ← not_and_or, ← nothing]
    rcases Program.render_cases renders shows with ⟨text, isText, something⟩ | ⟨fails, isNothing⟩
    · exact iff_of_true ⟨text, isText⟩ something
    · rw [fails]
      exact iff_of_false nofun (not_not.mpr isNothing)
  · exact (Workflow.components_eq_nil_iff coherent).mpr fun edge _ => noneResolves edge
  · exact Workflow.leaves_main_of_noneResolves coherent noneResolves

def nothingButDangling : Document :=
  { entrypoint := some "entry"
    triggers := [{ id := "t" }]
    nodes := [{ id := "a" }, { id := "b", ports := [{ id := "b.p", name := "p" }] }]
    edges :=
      [{ id := "e0", sourceNode := "entry", targetNode := "ghost" },
        { id := "e1", sourceNode := "ghost", targetNode := "a" },
        { id := "e2", sourceNode := "a", sourcePort := some "b.p", targetNode := "b" }] }

def plainSettings : Program.Settings := .ofOptions {} none

/-- None of the three edges resolves, so there is nothing to output. -/
theorem render_fails_iff_nothingButDangling :
    ∃ workflow, Workflow.load nothingButDangling = .ok workflow ∧
      plainSettings.showComponents = true ∧ workflow.edges.ids = [⟨0⟩, ⟨1⟩, ⟨2⟩] ∧
      Program.render plainSettings workflow workflow.compile = .error .nothingToOutput := by
  have evaluated : ((Workflow.load nothingButDangling).toOption.map fun workflow =>
      (workflow.edges.ids, workflow.edges.ids.filterMap fun edge =>
          (workflow.resolveEdge edge).toOption,
        workflow.edges.ids.filterMap fun edge =>
          (workflow.edge? edge).bind fun entry => workflow.lookupTrigger? entry.sourceNode)) =
      some ([⟨0⟩, ⟨1⟩, ⟨2⟩], [], []) := by
    decide +kernel
  obtain ⟨workflow, loaded, views⟩ := Workflow.exists_load_of_map_toOption evaluated
  simp only [Prod.mk.injEq, List.filterMap_eq_nil_iff] at views
  obtain ⟨edges, noneResolves, noneLeft⟩ := views
  have coherent := Workflow.coherent_of_load loaded
  refine ⟨workflow, loaded, rfl, edges, ?_⟩
  refine (render_fails_iff loaded rfl).1.mpr ⟨fun edge resolved resolves => ?_, ?_⟩
  · have dangles := noneResolves edge (Workflow.mem_edge_ids_of_resolveEdge coherent resolves)
    rw [resolves] at dangles
    cases dangles
  · intro edge entry found
    have isListed : edge ∈ workflow.edges.ids :=
      (Arena.mem_ids (Nat.le_of_lt coherent.edgesFit)).mpr ⟨entry, found⟩
    have untouched := noneLeft edge isListed
    rw [found, Option.bind_some] at untouched
    exact untouched

def strandedTrigger : Document := (({} : Document).addTrigger "t").addEdge "t" "ghost"

/-- The trigger is the main expression although the edge, which is the only one, does not
resolve. So there is some output where no edge has a place in a graph. -/
theorem render_shows_strandedTrigger :
    ∃ workflow, Workflow.load strandedTrigger = .ok workflow ∧
      (∀ edge resolved, workflow.resolveEdge edge ≠ .ok resolved) ∧
      workflow.compile.main = .trigger ⟨0⟩ ∧
      Program.render plainSettings workflow workflow.compile = .ok "graph = t\n" ∧
      Program.render plainSettings workflow workflow.compile ≠ .error .nothingToOutput := by
  have evaluated : ((Workflow.load strandedTrigger).toOption.map fun workflow =>
      (workflow.edges.ids.filterMap fun edge => (workflow.resolveEdge edge).toOption,
        workflow.compile.main,
        (Program.render plainSettings workflow workflow.compile).toOption)) =
      some ([], .trigger ⟨0⟩, some "graph = t\n") := by
    decide +kernel
  obtain ⟨workflow, loaded, views⟩ := Workflow.exists_load_of_map_toOption evaluated
  simp only [Prod.mk.injEq, List.filterMap_eq_nil_iff] at views
  obtain ⟨noneResolves, main, isText⟩ := views
  have isShown := eq_ok_of_toOption_eq_some isText
  refine ⟨workflow, loaded, fun edge resolved resolves => ?_, main, isShown, ?_⟩
  · have coherent := Workflow.coherent_of_load loaded
    have dangles := noneResolves edge (Workflow.mem_edge_ids_of_resolveEdge coherent resolves)
    rw [resolves] at dangles
    cases dangles
  · rw [isShown]
    exact nofun

end FlowGraph
