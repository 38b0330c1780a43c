import FlowGraph.Proofs.Locality
import FlowGraph.Proofs.StoredLeaves

/-!
Where ports lead. A port comes into an expression with a link from it, and no rewrite takes the
link away, so every port among the leaves of an expression is the source of a link in it. It may
be so at another place only: what is repeated as the beginning of a branch can end in a port.
-/

namespace FlowGraph

open FlowGraph.Expr

namespace Expr

def PortsLead (expr : Expr) : Prop :=
  ∀ node port, Reference.port node port ∈ expr.leaves →
    ∃ target, (Reference.port node port, .node target) ∈ expr.links

private theorem portsLead_flatten (hasDefaultExit : NodeId → Bool) {members : List Expr}
    (leads : ∀ member ∈ members, member.PortsLead) :
    (flatten hasDefaultExit members).PortsLead := by
  intro node port isLeaf
  obtain ⟨member, present, inMember⟩ :=
    exists_mem_leaves_of_pieces (List.filter_subset_self _) isLeaf
  obtain ⟨target, within⟩ := leads member present node port inMember
  have inSet : (Reference.port node port, .node target) ∈ (Expr.set members).links :=
    mem_links_set.mpr ⟨member, present, within⟩
  exact ⟨target, ((sameOutline_flatten hasDefaultExit members).links _).mpr inSet⟩

private theorem portsLead_ofReference_owner (reference : Reference) :
    (ofReference reference.owner).PortsLead := by
  intro node port isLeaf
  rw [leaves_ofReference, List.mem_singleton] at isLeaf
  cases reference <;> cases isLeaf

end Expr

private theorem Surroundings.portsLead_foldAtTop {surroundings : Surroundings}
    {source : Option Reference}
    {target : NodeId} {expr folded : Expr} (solid : expr.Solid) (leads : expr.PortsLead)
    (found : surroundings.foldAtTop source target expr = some folded) : folded.PortsLead := by
  have adds : Adds source target expr folded :=
    adds_fold solid (Anchor.admits_entry source) found
  -- All leaves come from the edge and from the old expression, and the result links their ports.
  let linked (leaf : Reference) : Prop :=
    ∀ node port, leaf = .port node port → ∃ next, (leaf, .node next) ∈ folded.links
  have ofTarget : (Expr.node target).Solid ∧ ∀ leaf ∈ (Expr.node target).leaves, linked leaf := by
    refine ⟨.node target, ?_⟩
    intro leaf isLeaf node port isPort
    rw [List.mem_singleton.mp isLeaf] at isPort
    cases isPort
  have ofSource : ∀ leaving, source = some leaving →
      (ofReference leaving).Solid ∧ ∀ leaf ∈ (ofReference leaving).leaves, linked leaf := by
    intro leaving isSource
    refine ⟨solid_ofReference leaving, ?_⟩
    intro leaf isLeaf node port _
    rw [leaves_ofReference, List.mem_singleton] at isLeaf
    rw [isLeaf]
    exact ⟨target, (adds.links _).mpr (Or.inr ⟨isSource, rfl⟩)⟩
  have ofOld : expr.Solid ∧ ∀ leaf ∈ expr.leaves, linked leaf := by
    refine ⟨solid, ?_⟩
    rintro leaf isLeaf node port rfl
    obtain ⟨next, within⟩ := leads node port isLeaf
    exact ⟨next, (adds.links _).mpr (Or.inl within)⟩
  intro node port isLeaf
  have invariant := rewriteInvariant_leaves surroundings.hasDefaultExit linked
  exact (invariant.fold ofTarget ofSource ofOld found).2 _ isLeaf node port rfl

/-- What is kept while an expression is built: it is solid unless it is still empty, and its
ports lead somewhere. -/
structure Expr.Leading (expr : Expr) : Prop where
  formed : expr.EmptyOrSolid
  ports : expr.PortsLead

/-! ### Building -/

namespace Build

variable {workflow : Workflow} {start build : Build}

private theorem leading_step (edge : EdgeId) (leading : build.expr.Leading) :
    (build.step workflow edge).expr.Leading := by
  cases resolves : workflow.resolveEdge edge with
  | error cause =>
      rw [step_of_dangling build resolves]
      exact leading
  | ok resolved =>
      cases found : workflow.surroundings.foldAtTop resolved.source resolved.target build.expr with
      | none =>
          rw [step_of_unplaced build resolves found]
          exact leading
      | some folded =>
          rw [step_of_placed build resolves found]
          rcases leading.formed with vacant | solid
          · rw [vacant] at found
            cases found
            exact ⟨Or.inr (.node _), portsLead_ofReference_owner (.node _)⟩
          · have adds := Surroundings.adds_fold solid (Anchor.admits_entry _) found
            exact ⟨Or.inr adds.solid,
              Surroundings.portsLead_foldAtTop solid leading.ports found⟩

private theorem leading_refill (first : EdgeId) (rest : List EdgeId)
    (leading : build.expr.Leading) : (build.refill workflow first rest).expr.Leading := by
  unfold Build.refill
  dsimp only
  split
  · exact leading
  · rw [expr_restart]
    split
    · rename_i owner found
      obtain ⟨leaving, _, _, rfl⟩ := sourceOwner?_eq_some.mp found
      refine ⟨emptyOrSolid_flatten_pair _ leading.formed (Or.inr (solid_ofReference _)), ?_⟩
      apply portsLead_flatten
      intro member present
      rcases List.mem_cons.mp present with rfl | last
      · exact leading.ports
      · rw [List.mem_singleton.mp last]
        exact portsLead_ofReference_owner leaving
    · exact leading

private theorem Visits.leading (visited : Visits workflow start build)
    (leading : start.expr.Leading) : build.expr.Leading := by
  induction visited with
  | start => exact leading
  | step _ _ ih => exact leading_step _ ih
  | refill _ _ ih => exact leading_refill _ _ ih

private theorem leading_of_owners (hasDefaultExit : NodeId → Bool) {references : List Reference}
    (owners : ∀ reference ∈ references, ∃ leaving, Reference.owner leaving = reference) :
    (flatten hasDefaultExit (references.map ofReference)).Leading where
  formed := by
    apply emptyOrSolid_flatten
    intro member present
    obtain ⟨reference, _, rfl⟩ := List.mem_map.mp present
    exact Or.inr (solid_ofReference reference)
  ports := by
    apply portsLead_flatten
    intro member present
    obtain ⟨reference, isReference, rfl⟩ := List.mem_map.mp present
    obtain ⟨leaving, rfl⟩ := owners reference isReference
    exact portsLead_ofReference_owner leaving

private theorem leading_mainStart (workflow : Workflow) (progress : Progress) :
    (mainStart workflow progress).expr.Leading := by
  apply leading_of_owners
  intro reference isStart
  obtain ⟨_, _, _, trigger, _, _, rfl⟩ := mem_entryTriggers.mp isStart
  exact ⟨.trigger trigger, rfl⟩

private theorem leading_ofRoots (workflow : Workflow) (component : Component)
    (progress : Progress) : (ofRoots workflow component progress).expr.Leading := by
  rw [ofRoots]
  dsimp only
  rw [fst_seeds]
  apply leading_of_owners
  intro reference isRoot
  obtain ⟨_, _, found⟩ := List.mem_filterMap.mp isRoot
  obtain ⟨leaving, _, _, isOwner⟩ := sourceOwner?_eq_some.mp found
  exact ⟨leaving, isOwner⟩

end Build

/-- Every port in what a workflow is compiled into leads to a node: it is the source of a link
of the same expression. -/
theorem compile_links_every_port {document : Document} {workflow : Workflow}
    (loaded : Workflow.load document = .ok workflow) :
    ∀ expr ∈ workflow.compile.main :: workflow.compile.components, ∀ node port,
      Reference.port node port ∈ expr.leaves →
        ∃ target, (Reference.port node port, .node target) ∈ expr.links := by
  have coherent := Workflow.coherent_of_load loaded
  intro expr present
  rcases List.mem_cons.mp present with rfl | isComponent
  · exact ((Build.visits_main workflow _).leading (Build.leading_mainStart workflow _)).ports
  · rw [Workflow.components_compile coherent] at isComponent
    obtain ⟨group, _, rfl⟩ := List.mem_map.mp (List.mem_filter.mp isComponent).1
    exact ((Build.visits_component workflow group _).leading
      (Build.leading_ofRoots workflow group _)).ports

/-- Two branches that meet in a last node, one of them through a port of a node that also goes
over to the other branch through another port. -/
def rejoiningPorts : Document :=
  { entrypoint := some "entry"
    nodes := [{ id := "x" }, { id := "y" }, { id := "last" },
      { id := "n", ports := [{ id := "p", name := "on" }, { id := "q", name := "over" }] }]
    edges :=
      [{ id := "0", sourceNode := "entry", targetNode := "x" },
        { id := "1", sourceNode := "entry", targetNode := "y" },
        { id := "2", sourceNode := "x", targetNode := "last" },
        { id := "3", sourceNode := "y", targetNode := "n" },
        { id := "4", sourceNode := "n", sourcePort := some "p", targetNode := "last" },
        { id := "5", sourceNode := "n", sourcePort := some "q", targetNode := "x" }] }

private theorem load_rejoiningPorts :
    ∃ workflow, Workflow.load rejoiningPorts = .ok workflow ∧
      workflow.compile.main =
        .set [.sequence (.set [.node ⟨0⟩, .sequence (.node ⟨1⟩) (.port ⟨3⟩ ⟨0⟩)]) (.node ⟨2⟩),
          .sequence (.node ⟨1⟩)
            (.set [.port ⟨3⟩ ⟨0⟩, .sequence (.port ⟨3⟩ ⟨1⟩) (.node ⟨0⟩)])] :=
  Workflow.exists_load_of_map_toOption (by decide +kernel)

/-- The port is linked to the last node, as both of its leaves ask for. -/
theorem compile_links_every_port_rejoiningPorts :
    ∃ workflow, Workflow.load rejoiningPorts = .ok workflow ∧
      Reference.port ⟨3⟩ ⟨0⟩ ∈ workflow.compile.main.leaves ∧
        ∃ target, (Reference.port ⟨3⟩ ⟨0⟩, .node target) ∈ workflow.compile.main.links := by
  obtain ⟨workflow, loaded, main⟩ := load_rejoiningPorts
  have isLeaf : Reference.port ⟨3⟩ ⟨0⟩ ∈ workflow.compile.main.leaves := by
    rw [main]
    decide
  exact ⟨workflow, loaded, isLeaf,
    compile_links_every_port loaded workflow.compile.main List.mem_cons_self ⟨3⟩ ⟨0⟩ isLeaf⟩

/-- When the node is left through its second port, the branch to it is repeated with the first
port at its end, where nothing follows: the link to the last node stands in the other member. -/
theorem exists_port_mem_exits_rejoiningPorts :
    ∃ workflow, Workflow.load rejoiningPorts = .ok workflow ∧
      Reference.port ⟨3⟩ ⟨0⟩ ∈ workflow.compile.main.exits := by
  obtain ⟨workflow, loaded, main⟩ := load_rejoiningPorts
  refine ⟨workflow, loaded, ?_⟩
  rw [main]
  decide

end FlowGraph
