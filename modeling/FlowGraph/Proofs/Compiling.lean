import FlowGraph.Compilation
import FlowGraph.Document.Builder
import FlowGraph.Proofs.Components
import FlowGraph.Proofs.LoadedDocument

/-!
What compilation makes of a loaded workflow. The main expression and those of the
components denote the graph of all edges that resolve, with no link lost and none
invented, and every edge that is taken has a place.
-/

namespace FlowGraph

open Build

namespace Workflow

variable {workflow : Workflow}

theorem sound_mainBuild (coherent : workflow.Coherent) :
    Sound workflow (entryTriggers workflow) workflow.edges.ids []
        workflow.mainBuild.progress.processed workflow.mainBuild ∧
      ∀ edge ∈ workflow.entryEdges, edge ∈ workflow.mainBuild.progress.processed := by
  have started : AllPlaced workflow (Progress.start.record (.indexed workflow.edges.size
      workflow.entryEdges.length workflow.hasTriggers)).events.toList := by
    exact AllPlaced.nil.record nofun nofun
  obtain ⟨done, sound, noneWaits⟩ := sound_main coherent rfl started
  have isDone : workflow.mainBuild.progress.processed = done :=
    sound.processed.trans (List.append_nil done)
  rw [isDone]
  refine ⟨sound, ?_⟩
  intro edge isEntry
  have inScope := (edgesWhere_sublist workflow _).subset isEntry
  rw [← sound.accounts.mem_iff, noneWaits, List.nil_append, List.mem_append] at inScope
  rcases inScope with inDone | isFresh
  · exact inDone
  · exact absurd isEntry (sound.noEntry edge isFresh)

/-- Every edge that resolves is processed with the main expression or left over. -/
theorem mem_processed_or_leftover (coherent : workflow.Coherent) {edge : EdgeId}
    {resolved : ResolvedEdge} (resolves : workflow.resolveEdge edge = .ok resolved) :
    edge ∈ workflow.mainBuild.progress.processed ∨
      edge ∈ (leftover workflow workflow.mainBuild.progress).map Prod.fst := by
  by_cases isProcessed : edge ∈ workflow.mainBuild.progress.processed
  · exact Or.inl isProcessed
  · exact Or.inr ((mem_leftover coherent).mpr
      ⟨mem_edge_ids_of_resolveEdge coherent resolves, isProcessed⟩)

theorem coverTogether_compile (coherent : workflow.Coherent) :
    CoverTogether workflow ((leftover workflow workflow.mainBuild.progress).map Prod.fst)
        workflow.compile.components ∧
      AllPlaced workflow workflow.compile.progress.events.toList := by
  obtain ⟨sound, entryDone⟩ := sound_mainBuild coherent
  obtain ⟨together, allPlaced⟩ := coverTogether_components coherent entryDone sound.allPlaced
  exact ⟨together, allPlaced.record nofun nofun⟩

end Workflow

/-! ### Main results -/

/-- The expressions of a loaded workflow denote the graph of its edges: together they hold
the links of all edges that resolve, and the targets of those that leave the structural
entry among their heads. The main expression starts at the triggers that entry edges leave
and at the targets of the edges processed with it that leave the structural entry. -/
theorem compile_denotes_edges {document : Document} {workflow : Workflow}
    (loaded : Workflow.load document = .ok workflow) :
    (∀ link,
        (link ∈ workflow.compile.main.links ∨
            ∃ expr ∈ workflow.compile.components, link ∈ expr.links) ↔
          ∃ edge leaving target, workflow.resolveEdge edge = .ok ⟨some leaving, target⟩ ∧
            link = (leaving, .node target)) ∧
      (∀ edge target, workflow.resolveEdge edge = .ok ⟨none, target⟩ →
        .node target ∈ workflow.compile.main.heads ∨
          ∃ expr ∈ workflow.compile.components, .node target ∈ expr.heads) ∧
      ∀ head, head ∈ workflow.compile.main.heads ↔
        (∃ edge ∈ workflow.entryEdges, ∃ entry trigger, workflow.edge? edge = some entry ∧
            workflow.lookupTrigger? entry.sourceNode = some trigger ∧ head = .trigger trigger) ∨
          ∃ edge ∈ workflow.mainBuild.progress.processed, ∃ target,
            workflow.resolveEdge edge = .ok ⟨none, target⟩ ∧ head = .node target := by
  have coherent := Workflow.coherent_of_load loaded
  have main : Covers workflow (entryTriggers workflow)
      workflow.mainBuild.progress.processed workflow.compile.main :=
    (Workflow.sound_mainBuild coherent).1.covers
  have leftovers := (Workflow.coverTogether_compile coherent).1
  refine ⟨?_, ?_, ?_⟩
  · intro link
    rw [main.links, leftovers.links]
    constructor
    · intro joined
      rcases joined with ⟨edge, _, target, resolves, place⟩ | ⟨edge, _, target, resolves, place⟩
      · exact ⟨edge, link.1, target, resolves, Prod.ext rfl place⟩
      · exact ⟨edge, link.1, target, resolves, Prod.ext rfl place⟩
    · intro joined
      obtain ⟨edge, leaving, target, resolves, rfl⟩ := joined
      rcases Workflow.mem_processed_or_leftover coherent resolves with isProcessed | isLeft
      · exact Or.inl ⟨edge, isProcessed, target, resolves, rfl⟩
      · exact Or.inr ⟨edge, isLeft, target, resolves, rfl⟩
  · intro edge target resolves
    have enters : workflow.Enters edge (.node target) := ⟨target, resolves, rfl⟩
    rcases Workflow.mem_processed_or_leftover coherent resolves with isProcessed | isLeft
    · exact Or.inl ((main.heads _).mpr (Or.inr ⟨edge, isProcessed, enters⟩))
    · exact Or.inr (leftovers.heads edge isLeft _ enters)
  · intro head
    rw [main.heads, mem_entryTriggers]
    rfl

def threeParts : Document :=
  ((((((Document.ofEntrypoint "entry").addTrigger "t").addNodes ["a", "b", "x", "y"]).addEdge "t"
    "a").addEdge "a" "b").addEdge "b" "a").addEdge "entry" "b" |>.addEdge "x" "y"

/-- The main expression starts at the trigger, one component at the node that the
entrypoint leads to, and another one holds the edge apart. -/
theorem compile_denotes_edges_threeParts :
    ∃ workflow, Workflow.load threeParts = .ok workflow ∧
      workflow.compile.components = [.node ⟨1⟩, .sequence (.node ⟨2⟩) (.node ⟨3⟩)] ∧
      workflow.resolveEdge ⟨4⟩ = .ok ⟨some (.node ⟨2⟩), ⟨3⟩⟩ ∧
      ((.node ⟨2⟩, .node ⟨3⟩) ∈ workflow.compile.main.links ∨
        ∃ expr ∈ workflow.compile.components, (.node ⟨2⟩, .node ⟨3⟩) ∈ expr.links) ∧
      workflow.resolveEdge ⟨3⟩ = .ok ⟨none, ⟨1⟩⟩ ∧
      (.node ⟨1⟩ ∈ workflow.compile.main.heads ∨
        ∃ expr ∈ workflow.compile.components, .node ⟨1⟩ ∈ expr.heads) ∧
      workflow.entryEdges = [⟨0⟩] ∧ .trigger ⟨0⟩ ∈ workflow.compile.main.heads := by
  have evaluated : ((Workflow.load threeParts).toOption.map fun workflow =>
      (workflow.compile.components, (workflow.resolveEdge ⟨4⟩).toOption,
        (workflow.resolveEdge ⟨3⟩).toOption)) =
      some ([.node ⟨1⟩, .sequence (.node ⟨2⟩) (.node ⟨3⟩)],
        some ⟨some (.node ⟨2⟩), ⟨3⟩⟩, some ⟨none, ⟨1⟩⟩) := by
    decide +kernel
  have entrance : ((Workflow.load threeParts).toOption.map fun workflow =>
      (workflow.entryEdges,
        (workflow.edge? ⟨0⟩).map fun entry => workflow.lookupTrigger? entry.sourceNode)) =
      some ([⟨0⟩], some (some ⟨0⟩)) := by
    decide +kernel
  obtain ⟨workflow, loaded, views⟩ := Workflow.exists_load_of_map_toOption evaluated
  rw [loaded] at entrance
  simp only [Prod.mk.injEq] at views
  obtain ⟨components, apart, entering⟩ := views
  obtain ⟨entryEdges, isTrigger⟩ := Prod.mk.inj (Option.some.inj entrance)
  have joins := eq_ok_of_toOption_eq_some apart
  have enters := eq_ok_of_toOption_eq_some entering
  obtain ⟨entry, found, declared⟩ := Option.map_eq_some_iff.mp isTrigger
  obtain ⟨links, entered, heads⟩ := compile_denotes_edges loaded
  have isEntry : (⟨0⟩ : EdgeId) ∈ workflow.entryEdges := entryEdges ▸ List.mem_singleton_self _
  exact ⟨workflow, loaded, components, joins, (links _).mpr ⟨⟨4⟩, _, _, joins, rfl⟩, enters,
    entered _ _ enters, entryEdges,
    (heads _).mpr (Or.inl ⟨⟨0⟩, isEntry, entry, ⟨0⟩, found, declared, rfl⟩)⟩

/-- No edge of a loaded workflow is left without a place: whenever one is taken and
resolves, it is placed at once. -/
theorem compile_places_every_edge {document : Document} {workflow : Workflow}
    (loaded : Workflow.load document = .ok workflow) :
    (∀ edge, Event.unplaced edge ∉ workflow.compile.progress.events.toList) ∧
      ∀ before after edge resolved,
        workflow.compile.progress.events.toList = before ++ .taken edge :: after →
          workflow.resolveEdge edge = .ok resolved →
            ∃ expr rest, after = .placed edge expr :: rest := by
  have allPlaced := (Workflow.coverTogether_compile (Workflow.coherent_of_load loaded)).2
  exact ⟨allPlaced.noneUnplaced, allPlaced.placed⟩

/-- The edge apart is taken for a component of its own and placed at once. -/
theorem compile_places_every_edge_threeParts :
    ∃ workflow before after, Workflow.load threeParts = .ok workflow ∧
      workflow.compile.progress.events.toList = before ++ .taken ⟨4⟩ :: after ∧
      workflow.resolveEdge ⟨4⟩ = .ok ⟨some (.node ⟨2⟩), ⟨3⟩⟩ ∧
      Event.unplaced ⟨4⟩ ∉ workflow.compile.progress.events.toList ∧
      ∃ expr rest, after = .placed ⟨4⟩ expr :: rest := by
  have evaluated : ((Workflow.load threeParts).toOption.map fun workflow =>
      ((workflow.resolveEdge ⟨4⟩).toOption, workflow.compile.progress.events.toList.drop 13)) =
      some (some ⟨some (.node ⟨2⟩), ⟨3⟩⟩,
        [.taken ⟨4⟩, .placed ⟨4⟩ (.sequence (.node ⟨2⟩) (.node ⟨3⟩)), .compiled 5 false 2]) := by
    decide +kernel
  obtain ⟨workflow, loaded, views⟩ := Workflow.exists_load_of_map_toOption evaluated
  obtain ⟨apart, ending⟩ := Prod.mk.inj views
  have joins := eq_ok_of_toOption_eq_some apart
  have isTaken := List.take_append_drop 13 workflow.compile.progress.events.toList
  rw [ending] at isTaken
  obtain ⟨noneUnplaced, placed⟩ := compile_places_every_edge loaded
  exact ⟨workflow, _, _, loaded, isTaken.symm, joins, noneUnplaced ⟨4⟩,
    placed _ _ _ _ isTaken.symm joins⟩

end FlowGraph
