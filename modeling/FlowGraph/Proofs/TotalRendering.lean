import FlowGraph.Proofs.PaddedArenas
import FlowGraph.Proofs.RenderedText

/-!
Compiling and rendering never fail for a workflow that is loaded. What compilation ends with
is solid, and its leaves are stored, so that each of them has a display text.
-/

namespace FlowGraph

open FlowGraph.Expr

namespace Workflow.Written

variable {workflow : Workflow} {document : Document}

/-! ### Display texts of stored leaves -/

private theorem exists_nodeLabel (written : workflow.Written document) {node : NodeId}
    {stored : Node} (isNode : workflow.node? node = some stored) :
    ∃ text, workflow.nodeLabel? node = some text := by
  obtain ⟨_, _, reads⟩ := written.exists_nodeEntry isNode
  exact ⟨_, Option.bind_eq_some_iff.mpr ⟨stored, isNode, reads.label⟩⟩

private theorem exists_portName (written : workflow.Written document) {port : PortId}
    {stored : Port} (isPort : workflow.port? port = some stored) :
    ∃ text, workflow.portName? port = some text := by
  obtain ⟨_, _, reads⟩ := written.exists_portEntry isPort
  exact ⟨_, Option.bind_eq_some_iff.mpr ⟨stored, isPort, reads.name⟩⟩

private theorem exists_triggerLabel (written : workflow.Written document) {trigger : TriggerId}
    {stored : Trigger} (isTrigger : workflow.trigger? trigger = some stored) :
    ∃ text, workflow.triggerLabel? trigger = some text := by
  obtain ⟨_, _, reads⟩ := written.exists_triggerEntry isTrigger
  exact ⟨_, Option.bind_eq_some_iff.mpr ⟨stored, isTrigger, reads.label⟩⟩

private theorem exists_leafText (written : workflow.Written document) {leaf : Reference}
    (stored : workflow.Stores leaf) : ∃ text, GraphText.leafText? workflow leaf = some text := by
  cases leaf with
  | node nodeId =>
      obtain ⟨_, isNode⟩ := stored
      exact written.exists_nodeLabel isNode
  | port nodeId portId =>
      obtain ⟨_, _, isNode, isPort, _⟩ := stored
      obtain ⟨label, isLabel⟩ := written.exists_nodeLabel isNode
      obtain ⟨name, isName⟩ := written.exists_portName isPort
      exact ⟨GraphText.portText label name, by simp [GraphText.leafText?, isLabel, isName]⟩
  | trigger triggerId =>
      obtain ⟨_, isTrigger⟩ := stored
      exact written.exists_triggerLabel isTrigger

private theorem exists_render (written : workflow.Written document) {expr : Expr}
    (held : expr.Solid ∧ ∀ leaf ∈ expr.leaves, workflow.Stores leaf) :
    ∃ text, GraphText.render workflow expr = .ok text :=
  GraphText.exists_renderAfter held.1
    (fun leaf isLeaf => written.exists_leafText (held.2 leaf isLeaf)) false

end Workflow.Written

/-! ### All graphs of a compilation -/

namespace GraphText

/-- What the texts of a compilation are: nothing for an empty main expression, else its text,
and one text for every component, in their order. -/
structure Renders (workflow : Workflow) (compilation : Compilation)
    (graphs : RenderedGraphs) : Prop where
  rendered : renderAll workflow compilation = .ok graphs
  noMain : graphs.main = none ↔ compilation.main = .empty
  main : ∀ text, graphs.main = some text → render workflow compilation.main = .ok text
  components : List.Forall₂ (fun expr text => render workflow expr = .ok text)
    compilation.components graphs.components

private theorem renderAll_eq_ok {workflow : Workflow} {compilation : Compilation}
    {main : Option String}
    {texts : List String} (isMain : renderMain workflow compilation.main = .ok main)
    (areTexts : List.Forall₂ (fun expr text => render workflow expr = .ok text)
      compilation.components texts) :
    renderAll workflow compilation = .ok ⟨main, texts⟩ := by
  rw [renderAll, isMain, mapM_eq_ok_iff.mpr areTexts]
  rfl

private theorem exists_renders {workflow : Workflow} {compilation : Compilation}
    (ofMain : compilation.main.EmptyOr fun expr => ∃ text, render workflow expr = .ok text)
    (ofComponents : ∀ expr ∈ compilation.components, ∃ text, render workflow expr = .ok text) :
    ∃ graphs, Renders workflow compilation graphs := by
  obtain ⟨texts, allTexts⟩ := exists_texts ofComponents
  have ofTexts := mapM_eq_ok_iff.mp allTexts
  by_cases vacant : compilation.main = .empty
  · have noMain : renderMain workflow compilation.main = .ok none := by
      rw [renderMain, vacant]
      rfl
    exact ⟨⟨none, texts⟩, renderAll_eq_ok noMain ofTexts, iff_of_true rfl vacant, nofun, ofTexts⟩
  · obtain ⟨text, isText⟩ := ofMain.resolve_left vacant
    have isMain : renderMain workflow compilation.main = .ok (some text) := by
      rw [renderMain, if_neg (mt (isEmpty_eq_true_iff _).mp vacant), isText]
      rfl
    refine ⟨⟨some text, texts⟩, renderAll_eq_ok isMain ofTexts, iff_of_false nofun vacant, ?_,
      ofTexts⟩
    rintro _ ⟨rfl⟩
    exact isText

/-! ### Other entries behind the arenas -/

section Padded

variable {workflow padded : Workflow} (pads : workflow.Pads padded)
include pads

private theorem leafText?_of_pads {leaf : Reference} {text : String}
    (isText : leafText? workflow leaf = some text) : leafText? padded leaf = some text := by
  have sameName : padded.nameText? = workflow.nameText? := by
    funext name
    rw [Workflow.nameText?, Workflow.nameText?, pads.names]
  have ofNode : ∀ {node label}, workflow.nodeLabel? node = some label →
      padded.nodeLabel? node = some label := by
    intro node label isLabel
    obtain ⟨entry, isNode, named⟩ := Option.bind_eq_some_iff.mp isLabel
    exact Option.bind_eq_some_iff.mpr ⟨entry, pads.nodes isNode, sameName ▸ named⟩
  cases leaf with
  | node nodeId => exact ofNode isText
  | port nodeId portId =>
      obtain ⟨label, isLabel, joined⟩ := Option.bind_eq_some_iff.mp isText
      obtain ⟨name, isName, rfl⟩ := Option.map_eq_some_iff.mp joined
      obtain ⟨entry, isPort, named⟩ := Option.bind_eq_some_iff.mp isName
      have ofPort : padded.portName? portId = some name :=
        Option.bind_eq_some_iff.mpr ⟨entry, pads.ports isPort, sameName ▸ named⟩
      rw [leafText?, ofNode isLabel, ofPort]
      rfl
  | trigger triggerId =>
      obtain ⟨entry, isTrigger, named⟩ := Option.bind_eq_some_iff.mp isText
      exact Option.bind_eq_some_iff.mpr ⟨entry, pads.triggers isTrigger, sameName ▸ named⟩

private theorem renderAfter_ofReference_of_pads (leaf : Reference) {followsSet : Bool}
    {text : String} (rendered : renderAfter workflow followsSet (ofReference leaf) = .ok text) :
    renderAfter padded followsSet (ofReference leaf) = .ok text :=
  renderAfter_ofReference_eq_ok.mpr
    (leafText?_of_pads pads (renderAfter_ofReference_eq_ok.mp rendered))

private theorem renderAfter_of_pads {expr : Expr} {followsSet : Bool} {text : String}
    (rendered : renderAfter workflow followsSet expr = .ok text) :
    renderAfter padded followsSet expr = .ok text := by
  induction expr generalizing followsSet text with
  | empty => cases rendered
  | node nodeId => exact renderAfter_ofReference_of_pads pads (.node nodeId) rendered
  | port nodeId portId => exact renderAfter_ofReference_of_pads pads (.port nodeId portId) rendered
  | trigger triggerId => exact renderAfter_ofReference_of_pads pads (.trigger triggerId) rendered
  | sequence first second ihFirst ihSecond =>
      obtain ⟨firstText, secondText, ofFirst, ofSecond, rfl⟩ :=
        renderAfter_sequence_eq_ok.mp rendered
      exact renderAfter_sequence_eq_ok.mpr
        ⟨firstText, secondText, ihFirst ofFirst, ihSecond ofSecond, rfl⟩
  | set members ih =>
      obtain ⟨texts, ofMembers, rfl⟩ := renderAfter_set_eq_ok.mp rendered
      refine renderAfter_set_eq_ok.mpr ⟨texts, ?_, rfl⟩
      clear rendered
      induction ofMembers with
      | nil => exact .nil
      | cons ofMember _ ihMembers =>
          exact .cons (ih _ List.mem_cons_self ofMember)
            (ihMembers fun later inRest => ih later (List.mem_cons_of_mem _ inRest))

private theorem Renders.of_pads {compilation : Compilation} {graphs : RenderedGraphs}
    (renders : Renders workflow compilation graphs) : Renders padded compilation graphs := by
  have ofComponents := renders.components.imp fun _ _ rendered => renderAfter_of_pads pads rendered
  have ofMain : ∀ text, graphs.main = some text → render padded compilation.main = .ok text :=
    fun text isMain => renderAfter_of_pads pads (renders.main text isMain)
  refine ⟨renderAll_eq_ok ?_ ofComponents, renders.noMain, ofMain, ofComponents⟩
  cases isMain : graphs.main with
  | none =>
      rw [renderMain, renders.noMain.mp isMain]
      rfl
  | some text =>
      have occupied : compilation.main ≠ .empty := by
        intro vacant
        rw [renders.noMain.mpr vacant] at isMain
        cases isMain
      rw [renderMain, if_neg (mt (isEmpty_eq_true_iff _).mp occupied), ofMain text isMain]
      rfl

end Padded

end GraphText

theorem Workflow.exists_renders_compile {document : Document} {workflow : Workflow}
    (loaded : load document = .ok workflow) :
    ∃ graphs, GraphText.Renders workflow workflow.compile graphs := by
  have written := written_of_load loaded
  have invariant := written.buildInvariant_stores
  exact GraphText.exists_renders (invariant.main.imp_right written.exists_render)
    fun expr present => written.exists_render (invariant.components present)

/-- Compiling and rendering are total on loaded workflows. The texts are there, and all leaves
of what is rendered are stored. On the way to it, builds hold stored leaves, edges and ends of
edges only, and the tables and entries of the workflow lead to nothing that is not stored. So
nothing is ever looked up behind the end of an arena: whatever else stood there, compiling and
rendering would come to the same. -/
theorem compile_renders {document : Document} {workflow : Workflow}
    (loaded : Workflow.load document = .ok workflow) :
    (∃ graphs, GraphText.Renders workflow workflow.compile graphs) ∧
      (∀ leaf ∈ workflow.compile.main.leaves, workflow.Stores leaf) ∧
      (∀ expr ∈ workflow.compile.components, ∀ leaf ∈ expr.leaves, workflow.Stores leaf) ∧
      (∀ build progress, Build.Visits workflow (Build.mainStart workflow progress) build →
        build.InRange workflow) ∧
      (∀ group ∈ Component.partition (Build.leftover workflow workflow.mainBuild.progress),
        ∀ build progress, Build.Visits workflow (Build.ofRoots workflow group progress) build →
          build.InRange workflow) ∧
      workflow.Closed ∧
      ∀ padded, workflow.Pads padded →
        padded.compile = workflow.compile ∧
          GraphText.renderAll padded padded.compile =
            GraphText.renderAll workflow workflow.compile := by
  have written := Workflow.written_of_load loaded
  have invariant := written.buildInvariant_stores
  obtain ⟨graphs, renders⟩ := Workflow.exists_renders_compile loaded
  refine ⟨⟨graphs, renders⟩, ?_, ?_, ?_, ?_, written.closed, ?_⟩
  · exact (written.inRange_main (Build.visits_main workflow _)).leaves
  · exact fun expr present => (invariant.components present).2
  · exact fun build progress visited => written.inRange_main visited
  · intro group isGroup build progress visited
    refine written.inRange_component ?_ visited
    refine List.Subset.trans (Component.subset_of_mem_partition isGroup) ?_
    rw [← Arena.map_fst_enumerate]
    exact List.map_subset Prod.fst (List.filter_subset_self _)
  · intro padded pads
    have sameCompilation := written.compile_of_pads pads
    refine ⟨sameCompilation, ?_⟩
    rw [sameCompilation, (renders.of_pads pads).rendered, renders.rendered]

def twoExits : Document :=
  { entrypoint := some "entry"
    nodes :=
      [{ id := "n", label := some "Check", ports := [{ id := "p", name := "on" },
            { id := "q", name := "off" }], defaultPort := some "q" },
        { id := "a" }, { id := "b" }, { id := "x" }, { id := "y" }]
    edges :=
      [{ id := "e1", sourceNode := "entry", targetNode := "n" },
        { id := "e2", sourceNode := "n", sourcePort := some "p", targetNode := "a" },
        { id := "e3", sourceNode := "n", sourcePort := some "q", targetNode := "b" },
        { id := "e4", sourceNode := "x", targetNode := "y" }] }

/-- The named port is a leaf of the main expression, and the default port is not. A node and
a port behind all others make no difference, though they have the idents of others that are
stored. -/
theorem compile_renders_twoExits :
    ∃ workflow graphs, Workflow.load twoExits = .ok workflow ∧
      GraphText.Renders workflow workflow.compile graphs ∧
      graphs.main = some "\x7bCheck.Ports.on >> a, Check >> b\x7d" ∧
      graphs.components = ["x >> y"] ∧
      workflow.compile.main.leaves =
        [.port ⟨0⟩ ⟨0⟩, .node ⟨1⟩, .node ⟨0⟩, .node ⟨2⟩] ∧
      workflow.Stores (.port ⟨0⟩ ⟨0⟩) ∧
      { workflow with
          nodes := workflow.nodes.push ⟨⟨1⟩, ⟨0⟩, [⟨9⟩], none⟩
          ports := workflow.ports.push ⟨⟨2⟩, ⟨9⟩, ⟨0⟩⟩ }.compile = workflow.compile := by
  have evaluated : ((Workflow.load twoExits).toOption.map fun workflow =>
      ((GraphText.renderAll workflow workflow.compile).toOption,
        workflow.compile.main.leaves)) =
      some (some ⟨some "\x7bCheck.Ports.on >> a, Check >> b\x7d", ["x >> y"]⟩,
        [.port ⟨0⟩ ⟨0⟩, .node ⟨1⟩, .node ⟨0⟩, .node ⟨2⟩]) := by
    decide +kernel
  obtain ⟨workflow, loaded, views⟩ := Workflow.exists_load_of_map_toOption evaluated
  obtain ⟨isText, isLeaves⟩ := Prod.mk.inj views
  obtain ⟨⟨graphs, renders⟩, stored, _, _, _, _, padded⟩ := compile_renders loaded
  have same := Except.ok.inj (renders.rendered.symm.trans (eq_ok_of_toOption_eq_some isText))
  have isLeaf : Reference.port ⟨0⟩ ⟨0⟩ ∈ workflow.compile.main.leaves := by
    rw [isLeaves]
    exact List.mem_cons_self
  exact ⟨workflow, graphs, loaded, renders, congrArg RenderedGraphs.main same,
    congrArg RenderedGraphs.components same, isLeaves, stored _ isLeaf,
    (padded _ (workflow.pads_push _ _)).1⟩

end FlowGraph
