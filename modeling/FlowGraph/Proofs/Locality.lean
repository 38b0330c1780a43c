import FlowGraph.Proofs.ComponentExtent
import FlowGraph.Proofs.FewerEdges
import FlowGraph.Proofs.MirroredComponents
import FlowGraph.Proofs.Traversal

/-!
No part of a compilation depends on the edges of another part. If every edge resolves, the
main expression stays as it is when the edges that it does not process are deleted, and the
expression of a component when all other edges are.
-/

namespace FlowGraph

open FlowGraph.Build FlowGraph.Expr

variable {workflow : Workflow} {same : IdentId → IdentId → Prop} {twin : EdgeId → EdgeId}
  {kept : EdgeId → Bool} {small large : Workflow}

/-! ### Edges that leave a node -/

namespace Workflow

private theorem exists_port_of_exitThrough? {node : NodeId} {ident : IdentId} {leaving : Reference}
    (exits : workflow.exitThrough? node (some ident) = some leaving) :
    ∃ port entry, workflow.lookupPort? ident = some port ∧ workflow.port? port = some entry ∧
      entry.node = node := by
  rw [exitThrough?] at exits
  split at exits
  · cases exits
  · rename_i port declared
    split at exits
    · rename_i isOwn
      obtain ⟨entry, found, ofNode⟩ := (Option.any_eq_true _ _).mp isOwn
      exact ⟨port, entry, declared, found, eq_of_beq ofNode⟩
    · cases exits

theorem mem_outgoing_of_resolveEdge (coherent : workflow.Coherent) (complete : workflow.Complete)
    {edge : EdgeId} {leaving : Reference} {node target : NodeId}
    (resolves : workflow.resolveEdge edge = .ok ⟨some leaving, target⟩)
    (owner : leaving.owner = .node node) : edge ∈ workflow.outgoing node := by
  obtain ⟨entry, found, origin⟩ := origin_of_resolveEdge resolves
  rcases origin with
    ⟨_, impossible⟩ | ⟨trigger, _, isTrigger⟩ | ⟨other, _, origin, exits, isLeaving⟩
  · cases impossible
  · cases isTrigger
    cases owner
  · cases isLeaving
    rw [owner_of_exitThrough? exits] at owner
    cases owner
    obtain ⟨nodeEntry, isNode, sameIdent⟩ := coherent.nodeStored (lookupNode?_of_origin? origin)
    rw [mem_outgoing]
    cases named : entry.sourcePort with
    | none =>
        exact Or.inr ((mem_portlessEdges coherent).mpr
          ⟨nodeEntry, entry, isNode, found, named, sameIdent.symm⟩)
    | some ident =>
        rw [named] at exits
        obtain ⟨port, portEntry, declared, isPort, rfl⟩ := exists_port_of_exitThrough? exits
        obtain ⟨stored, isStored, rfl⟩ := coherent.portStored declared
        cases isPort.symm.trans isStored
        exact Or.inl ⟨port, complete port portEntry isPort,
          (mem_edgesThroughPort coherent).mpr ⟨portEntry, entry, isPort, found, named⟩⟩

/-- Every edge of a workflow resolves, and the structural entry is no node. -/
structure Settled (workflow : Workflow) : Prop where
  resolves : ∀ edge ∈ workflow.edges.ids, ∃ resolved, workflow.resolveEdge edge = .ok resolved
  entranceApart : ∀ ident, workflow.entrypoint = some ident → workflow.lookupNode? ident = none

private theorem settled_iff :
    workflow.Settled ↔
      (workflow.edges.ids.all fun edge => (workflow.resolveEdge edge).isOk) = true ∧
        workflow.entrypoint.bind workflow.lookupNode? = none := by
  simp only [List.all_eq_true, isOk_resolveEdge_iff, Option.bind_eq_none_iff]
  exact ⟨fun settled => ⟨settled.resolves, settled.entranceApart⟩,
    fun ⟨resolves, entranceApart⟩ => ⟨resolves, entranceApart⟩⟩

instance : Decidable workflow.Settled := decidable_of_iff' _ settled_iff

theorem isEntrypoint_of_origin? {ident : IdentId}
    (origin : workflow.origin? ident = some .entrypoint) :
    workflow.entrypoint = some ident := by
  by_cases entrance : workflow.isEntrypoint ident = true
  · exact eq_of_beq entrance
  · rw [origin?, if_neg entrance] at origin
    split at origin
    · cases origin
    · obtain ⟨_, _, impossible⟩ := Option.map_eq_some_iff.mp origin
      cases impossible

private theorem Settled.resolves_of_links (settled : workflow.Settled)
    (coherent : workflow.Coherent)
    {edge : EdgeId} {source target : NodeId} (links : workflow.Links edge source target) :
    ∃ leaving, workflow.resolveEdge edge = .ok ⟨some leaving, target⟩ ∧
      leaving.owner = .node source := by
  obtain ⟨entry, sourceEntry, targetEntry, found, isSource, isTarget, ofSource, ofTarget⟩ := links
  have inIds : edge ∈ workflow.edges.ids :=
    (Arena.mem_ids (Nat.le_of_lt coherent.edgesFit)).mpr ⟨entry, found⟩
  obtain ⟨⟨leaves, place⟩, resolves⟩ := settled.resolves edge inIds
  have sourceDeclared : workflow.lookupNode? entry.sourceNode = some source :=
    ofSource ▸ coherent.nodeDeclared isSource
  obtain ⟨stored, isStored, placeDeclared⟩ := target_of_resolveEdge resolves
  cases found.symm.trans isStored
  rw [ofTarget, coherent.nodeDeclared isTarget] at placeDeclared
  cases placeDeclared
  obtain ⟨again, isAgain, origin⟩ := origin_of_resolveEdge resolves
  cases found.symm.trans isAgain
  -- As the source is declared as a node, it is neither the entry nor a trigger.
  rcases origin with ⟨origin, _⟩ | ⟨trigger, origin, _⟩ | ⟨node, leaving, origin, exits, rfl⟩
  · have noNode := settled.entranceApart _ (isEntrypoint_of_origin? origin)
    rw [sourceDeclared] at noNode
    cases noNode
  · have noNode := coherent.triggerNoNode (lookupTrigger?_of_origin? origin)
    rw [sourceDeclared] at noNode
    cases noNode
  · have isSourceNode := lookupNode?_of_origin? origin
    rw [sourceDeclared] at isSourceNode
    cases isSourceNode
    exact ⟨leaving, resolves, owner_of_exitThrough? exits⟩

end Workflow

private theorem Reference.owner_of_node? {reference : Reference} {node : NodeId}
    (isNode : reference.node? = some node) : reference.owner = .node node := by
  cases reference <;> cases isNode <;> rfl

/-! ### The main expression -/

private theorem isolated_processed (coherent : workflow.Coherent) (complete : workflow.Complete)
    (settled : workflow.Settled) :
    workflow.Isolated workflow.mainBuild.progress.isProcessed (fun _ => True)
      (workflow.mainBuild.progress.isProcessed · = true) where
  idle := fun _ isKept => Or.inl isKept
  onward := by
    intro edge resolved isKept resolves next leaves _
    have reached := (mem_processed_mainBuild coherent).mp (List.contains_iff_mem.mp isKept)
    exact List.contains_iff_mem.mpr
      ((mem_processed_mainBuild coherent).mpr (reached.onward resolves leaves))
  back := by
    intro edge resolved node isKept resolves _ other links
    have reached := (mem_processed_mainBuild coherent).mp (List.contains_iff_mem.mp isKept)
    obtain ⟨leaving, otherResolves, owner⟩ := settled.resolves_of_links coherent links
    have leaves := Workflow.mem_outgoing_of_resolveEdge coherent complete otherResolves owner
    exact ⟨other, List.contains_iff_mem.mpr
      ((mem_processed_mainBuild coherent).mpr (reached.onward resolves leaves)), links⟩

/-! ### Components -/

private theorem sharesEnd_of_links (coherent : workflow.Coherent) {edge other : EdgeId}
    {entry otherEntry : Edge} {resolved : ResolvedEdge} {node : NodeId}
    (found : workflow.edge? edge = some entry) (otherFound : workflow.edge? other = some otherEntry)
    (resolves : workflow.resolveEdge edge = .ok resolved)
    (links : workflow.Links other resolved.target node) :
    Component.SharesEnd (edge, entry) (other, otherEntry) := by
  obtain ⟨stored, isStored, declared⟩ := Workflow.target_of_resolveEdge resolves
  cases found.symm.trans isStored
  obtain ⟨stored, nodeEntry, _, isStored, isNodeEntry, _, ofSource, _⟩ := links
  cases otherFound.symm.trans isStored
  have sameIdent : entry.targetNode = otherEntry.sourceNode := by
    rw [ofSource]
    exact coherent.ident_eq_of_lookupNode? declared (coherent.nodeDeclared isNodeEntry)
  exact ⟨entry.targetNode, by simp [Component.ends], by simp [Component.ends, sameIdent]⟩

private theorem isolated_group (coherent : workflow.Coherent) (complete : workflow.Complete)
    (settled : workflow.Settled) {group : Component}
    (isGroup : group ∈ Component.partition (leftover workflow workflow.mainBuild.progress)) :
    workflow.Isolated (group.map Prod.fst).contains ((group.map Prod.fst).contains · = true)
      ((group.map Prod.fst).contains · = true) where
  idle := fun _ isKept => Or.inl isKept
  onward := fun _ _ _ _ _ _ inScope => inScope
  back := by
    intro edge resolved node isKept resolves isNode other links
    obtain ⟨⟨edge, entry⟩, inGroup, rfl⟩ := List.mem_map.mp (List.contains_iff_mem.mp isKept)
    have classes := Component.areClasses_partition
      (leftover workflow workflow.mainBuild.progress)
    have inLeftover := (classes.inOrder group isGroup).subset inGroup
    obtain ⟨found, notProcessed⟩ := (mem_leftover_entry coherent).mp inLeftover
    obtain ⟨leaving, otherResolves, owner⟩ := settled.resolves_of_links coherent links
    obtain ⟨otherEntry, otherFound, _⟩ := Workflow.target_of_resolveEdge otherResolves
    -- Behind an edge that the main build processes it would find this one.
    have otherLeft : other ∉ workflow.mainBuild.progress.processed := by
      intro otherProcessed
      obtain ⟨source, target⟩ := resolved
      cases source with
      | none => cases isNode
      | some reference =>
          have leaves := Workflow.mem_outgoing_of_resolveEdge coherent complete resolves
            (Reference.owner_of_node? isNode)
          have reached := ((mem_processed_mainBuild coherent).mp otherProcessed).onward
            otherResolves leaves
          exact notProcessed ((mem_processed_mainBuild coherent).mpr reached)
    have otherInLeftover := (mem_leftover_entry coherent).mpr ⟨otherFound, otherLeft⟩
    have shares := sharesEnd_of_links coherent found otherFound resolves links
    have otherInGroup := classes.mem_of_linked isGroup inGroup
      (.single ⟨inLeftover, otherInLeftover, shares⟩)
    exact ⟨other, List.contains_iff_mem.mpr (List.mem_map_of_mem otherInGroup), links⟩

namespace Workflow

private theorem fst_componentsFrom (coherent : workflow.Coherent) (groups : List Component)
    (progress : Progress) (index : Nat) :
    (componentsFrom workflow progress index groups).1 =
      (groups.map workflow.componentExpr).filter fun expr => !expr.isEmpty := by
  induction groups generalizing progress index with
  | nil => rfl
  | cons group groups ih =>
      rw [componentsFrom, List.map_cons, List.filter_cons, ← expr_component coherent group progress]
      dsimp only
      cases isEmpty : (Build.component workflow group progress).expr.isEmpty with
      | true => simp [ih]
      | false => simp [ih]

theorem components_compile (coherent : workflow.Coherent) :
    workflow.compile.components =
      ((Component.partition (leftover workflow workflow.mainBuild.progress)).map
        workflow.componentExpr).filter fun expr => !expr.isEmpty := by
  obtain ⟨started, _, built⟩ := components_eq workflow workflow.mainBuild.progress
  rw [← fst_componentsFrom coherent _ started 0, ← built]
  rfl

private theorem shows_componentExpr (coherent : workflow.Coherent) {component : Component}
    (distinct : (component.map Prod.fst).Nodup)
    (noEntry : ∀ edge ∈ component.map Prod.fst, edge ∉ workflow.entryEdges)
    (resolves : component.hasResolved workflow = true) :
    component.Shows workflow (workflow.componentExpr component) := by
  have nothingPlaced : AllPlaced workflow Progress.start.events.toList := AllPlaced.nil
  obtain ⟨starts, within, covers, _⟩ := covers_component coherent distinct noEntry nothingPlaced
  exact ⟨(ne_empty_iff_of_covers within covers).mpr resolves, contains_iff_of_covers within covers⟩

private theorem mainBuild_of_no_entry (noEntry : workflow.entryEdges = []) :
    workflow.mainBuild.expr = .empty ∧ workflow.mainBuild.progress.processed = [] := by
  rw [mainBuild, main_eq, drain_of_pending_eq_nil workflow noEntry]
  refine ⟨?_, rfl⟩
  rw [mainStart, entryTriggers, noEntry]
  rfl

end Workflow

/-! ### One component alone -/

namespace Component

private theorem sharesEnd_of_twins (unique : Relator.BiUnique same)
    {left leftImage right rightImage : EdgeId × Edge} (ofLeft : Twins same twin left leftImage)
    (ofRight : Twins same twin right rightImage) :
    SharesEnd left right ↔ SharesEnd leftImage rightImage := by
  simp only [SharesEnd, ends, List.mem_cons, List.not_mem_nil, or_false, exists_eq_or_imp,
    exists_eq_left, Relator.rel_eq unique ofLeft.2.sourceNode ofRight.2.sourceNode,
    Relator.rel_eq unique ofLeft.2.sourceNode ofRight.2.targetNode,
    Relator.rel_eq unique ofLeft.2.targetNode ofRight.2.sourceNode,
    Relator.rel_eq unique ofLeft.2.targetNode ofRight.2.targetNode]

end Component

namespace Workflow.Embeds

variable (embeds : Embeds same twin kept small large)
include embeds

theorem twins_enumerate :
    List.Forall₂ (Component.Twins same twin) small.edges.enumerate
      (large.edges.enumerate.filter fun stored => kept stored.1) := by
  have smallFits := Nat.le_of_lt embeds.smallCoherent.edgesFit
  have largeFits := Nat.le_of_lt embeds.largeCoherent.edgesFit
  have ids : (large.edges.enumerate.filter fun stored => kept stored.1).map Prod.fst =
      small.edges.enumerate.map fun entry => twin entry.1 := by
    have keptIds := embeds.ids
    rw [Arena.filter_ids, ← Arena.map_fst_enumerate, List.map_map] at keptIds
    exact keptIds
  have sameIds : List.Forall₂ (fun entry stored => twin entry.1 = stored.1)
      small.edges.enumerate (large.edges.enumerate.filter fun stored => kept stored.1) := by
    rw [← List.forall₂_map_right_iff, ← List.forall₂_map_left_iff, List.forall₂_eq_eq_eq]
    exact ids.symm
  refine List.forall₂_iff_zip.mpr ⟨sameIds.length_eq, ?_⟩
  rintro ⟨edge, entry⟩ ⟨other, stored⟩ together
  have isTwin : twin edge = other := List.forall₂_zip sameIds together
  subst isTwin
  obtain ⟨inSmall, inLarge⟩ := List.of_mem_zip together
  have found : small.edge? edge = some entry := (Arena.mem_enumerate smallFits).mp inSmall
  have twinFound : large.edge? (twin edge) = some stored :=
    (Arena.mem_enumerate largeFits).mp (List.mem_filter.mp inLarge).1
  have ends := embeds.edge? edge
  rw [found, twinFound] at ends
  exact ⟨rfl, Option.rel_some_some.mp ends⟩

private theorem exists_linked_of_twins {edges : List (EdgeId × Edge)} {groups : List Component}
    (classes : Component.AreClasses edges groups)
    (isGroup : (large.edges.enumerate.filter fun stored => kept stored.1) ∈ groups)
    {first image entry : EdgeId × Edge} (inSmall : first ∈ small.edges.enumerate)
    (inGroup : image ∈ large.edges.enumerate.filter fun stored => kept stored.1)
    (isTwin : Component.Twins same twin first image)
    (linked : Component.Linked edges image entry) :
    ∃ other ∈ small.edges.enumerate, Component.Twins same twin other entry ∧
      Component.Linked small.edges.enumerate first other := by
  induction linked with
  | refl => exact ⟨first, inSmall, isTwin, .refl⟩
  | @tail before after reaches shares ih =>
      obtain ⟨other, isOther, ofBefore, otherLinked⟩ := ih
      have stillInGroup := classes.mem_of_linked isGroup inGroup (reaches.tail shares)
      obtain ⟨next, isNext, ofAfter⟩ := exists_partner embeds.twins_enumerate stillInGroup
      have sharesAlike := (Component.sharesEnd_of_twins embeds.unique ofBefore ofAfter).mpr
        shares.2.2
      exact ⟨next, isNext, ofAfter, otherLinked.tail ⟨isOther, isNext, sharesAlike⟩⟩

private theorem partition_enumerate {edges : List (EdgeId × Edge)} {groups : List Component}
    (classes : Component.AreClasses edges groups)
    (isGroup : (large.edges.enumerate.filter fun stored => kept stored.1) ∈ groups) :
    Component.partition small.edges.enumerate = [small.edges.enumerate] := by
  have twins := embeds.twins_enumerate
  obtain ⟨inhabited, isClass⟩ := classes.whole _ isGroup
  cases stored : small.edges.enumerate with
  | nil =>
      rw [stored, List.forall₂_nil_left_iff] at twins
      exact absurd twins inhabited
  | cons first rest =>
      apply Component.partition_of_linked
      intro entry later
      rw [← stored]
      have inSmall : first ∈ small.edges.enumerate := stored ▸ List.mem_cons_self
      have entryInSmall : entry ∈ small.edges.enumerate := stored ▸ List.mem_cons_of_mem _ later
      have flipped : List.Forall₂ (flip (Component.Twins same twin))
          (large.edges.enumerate.filter fun stored => kept stored.1) small.edges.enumerate :=
        List.Forall₂.flip twins
      obtain ⟨image, inGroup, isTwin⟩ := exists_partner flipped inSmall
      obtain ⟨entryImage, entryInGroup, entryTwin⟩ := exists_partner flipped entryInSmall
      -- The two images are connected in the class, and so are the edges that they are twins of.
      have linked := ((isClass image inGroup entryImage).mp entryInGroup).2
      obtain ⟨other, isOther, otherTwin, otherLinked⟩ :=
        embeds.exists_linked_of_twins classes isGroup inSmall inGroup isTwin linked
      have sameId : other.1 = entry.1 := embeds.injective (otherTwin.1.symm.trans entryTwin.1)
      have sameEntry : other = entry := by
        have fits := Nat.le_of_lt embeds.smallCoherent.edgesFit
        have found := (Arena.mem_enumerate fits).mp isOther
        have alsoFound := (Arena.mem_enumerate fits).mp entryInSmall
        rw [sameId, alsoFound] at found
        exact Prod.ext sameId (Option.some.inj found).symm
      exact sameEntry ▸ otherLinked

end Workflow.Embeds

private theorem eq_filter_of_sublist {edges : List (EdgeId × Edge)} {group : Component}
    (distinct : (edges.map Prod.fst).Nodup) (inside : group.Sublist edges) :
    group = edges.filter fun entry => (group.map Prod.fst).contains entry.1 := by
  have allKept : (group.filter fun entry => (group.map Prod.fst).contains entry.1) = group := by
    refine List.filter_eq_self.mpr fun entry inGroup => ?_
    exact List.contains_iff_mem.mpr (List.mem_map_of_mem inGroup)
  have within := inside.filter fun entry => (group.map Prod.fst).contains entry.1
  rw [allKept] at within
  have isPart : (edges.filter fun entry =>
      (group.map Prod.fst).contains entry.1).Sublist edges := List.filter_sublist
  have keptIds : (edges.filter fun entry =>
      (group.map Prod.fst).contains entry.1).map Prod.fst ⊆ group.map Prod.fst := by
    intro edge isKept
    obtain ⟨entry, inFilter, rfl⟩ := List.mem_map.mp isKept
    exact List.contains_iff_mem.mp (List.mem_filter.mp inFilter).2
  have keptDistinct := distinct.sublist (isPart.map Prod.fst)
  have shorter := (List.subperm_of_subset keptDistinct keptIds).length_le
  rw [List.length_map, List.length_map] at shorter
  exact within.eq_of_length_le shorter

private theorem eq_filter_of_mem_partition (coherent : workflow.Coherent) {progress : Progress}
    {group : Component} (isGroup : group ∈ Component.partition (leftover workflow progress)) :
    group = workflow.edges.enumerate.filter fun entry =>
      (group.map Prod.fst).contains entry.1 := by
  have classes := Component.areClasses_partition (leftover workflow progress)
  apply eq_filter_of_sublist
  · rw [Arena.map_fst_enumerate]
    exact Workflow.nodup_edge_ids coherent
  · exact (classes.inOrder group isGroup).trans List.filter_sublist

/-- Compiled on its own, a class of leftover edges gives its expression and nothing else. -/
theorem compile_of_embeds_group (complete : workflow.Complete) (settled : workflow.Settled)
    {group : Component} {fewer : Workflow}
    (isGroup : group ∈ Component.partition (leftover workflow workflow.mainBuild.progress))
    (embeds : Workflow.Embeds same twin (group.map Prod.fst).contains fewer workflow)
    (inhabited : workflow.componentExpr group ≠ .empty) :
    fewer.compile.main = .empty ∧
      fewer.compile.components = [workflow.componentExpr group] := by
  have coherent := embeds.largeCoherent
  have isFilter := eq_filter_of_mem_partition coherent isGroup
  have twins := embeds.twins_enumerate
  rw [← isFilter] at twins
  have noEntry : fewer.entryEdges = [] := by
    have entryDone := (Workflow.sound_mainBuild coherent).2
    have apart := (nodup_and_noEntry_of_mem_partition coherent entryDone isGroup).2
    have entryTwins := embeds.entryEdges
    rw [List.filter_eq_nil_iff.mpr] at entryTwins
    · exact List.map_eq_nil_iff.mp entryTwins.symm
    · exact fun edge isEntry isKept => apart edge (List.contains_iff_mem.mp isKept) isEntry
  obtain ⟨noMain, noneProcessed⟩ := Workflow.mainBuild_of_no_entry noEntry
  refine ⟨noMain, ?_⟩
  have allLeft : leftover fewer fewer.mainBuild.progress = fewer.edges.enumerate := by
    refine List.filter_eq_self.mpr fun stored _ => ?_
    simp [Progress.isProcessed, noneProcessed]
  have oneGroup : Component.partition fewer.edges.enumerate = [fewer.edges.enumerate] :=
    embeds.partition_enumerate (Component.areClasses_partition _) (isFilter ▸ isGroup)
  have sameExpr : fewer.componentExpr fewer.edges.enumerate = workflow.componentExpr group :=
    (componentExpr_of_startsAlike embeds
      (.of_kept twins (fun _ inGroup => List.contains_iff_mem.mpr inGroup)
        fun _ inGroup => List.contains_iff_mem.mpr inGroup)
      (isolated_group coherent complete settled isGroup)).symm
  rw [Workflow.components_compile embeds.smallCoherent, allLeft, oneGroup, List.map_singleton,
    sameExpr, List.filter_cons_of_pos, List.filter_nil]
  rw [Bool.not_eq_true', ← Bool.not_eq_true, isEmpty_eq_true_iff]
  exact inhabited

/-- If every edge resolves, the classes of leftover edges have one expression each. -/
theorem Workflow.Settled.components_compile (settled : workflow.Settled)
    (coherent : workflow.Coherent) :
    workflow.compile.components =
      (Component.partition (leftover workflow workflow.mainBuild.progress)).map
        workflow.componentExpr ∧
    ∀ group ∈ Component.partition (leftover workflow workflow.mainBuild.progress),
      group.Shows workflow (workflow.componentExpr group) := by
  have entryDone := (sound_mainBuild coherent).2
  have classes := Component.areClasses_partition (leftover workflow workflow.mainBuild.progress)
  have shows : ∀ group ∈ Component.partition (leftover workflow workflow.mainBuild.progress),
      group.Shows workflow (workflow.componentExpr group) := by
    intro group isGroup
    obtain ⟨distinct, noEntry⟩ := nodup_and_noEntry_of_mem_partition coherent entryDone isGroup
    apply shows_componentExpr coherent distinct noEntry
    obtain ⟨⟨edge, entry⟩, inGroup⟩ := List.exists_mem_of_ne_nil _ (classes.whole _ isGroup).1
    have inLeftover := (classes.inOrder group isGroup).subset inGroup
    have found := ((mem_leftover_entry coherent).mp inLeftover).1
    have inIds : edge ∈ workflow.edges.ids :=
      (Arena.mem_ids (Nat.le_of_lt coherent.edgesFit)).mpr ⟨entry, found⟩
    exact Component.hasResolved_iff.mpr ⟨(edge, entry), inGroup, settled.resolves edge inIds⟩
  refine ⟨?_, shows⟩
  rw [Workflow.components_compile coherent, List.filter_eq_self]
  intro expr isComponent
  obtain ⟨group, isGroup, rfl⟩ := List.mem_map.mp isComponent
  rw [Bool.not_eq_true', ← Bool.not_eq_true, isEmpty_eq_true_iff]
  exact (shows group isGroup).inhabited

/-! ### Main result -/

/-- In a workflow of which every edge resolves and the structural entry is no node, the main
expression does not change when all edges are deleted that it does not process, and a class
of leftover edges that is compiled without all others has the expression that it has among
them. What is left of a document when edges are deleted loads as well, as long as the texts of
the whole document do not use up the offsets. -/
theorem compile_is_local {document : Document} {workflow : Workflow}
    (loaded : Workflow.load document = .ok workflow) (settled : workflow.Settled) :
    (∀ kept, workflow.idents.byteSize < UInt64.size →
      ∃ fewer, Workflow.load (document.keepEdges kept) = .ok fewer) ∧
    (∀ fewer, Workflow.load (document.keepEdges workflow.mainBuild.progress.isProcessed) =
      .ok fewer → fewer.compile.main = workflow.compile.main) ∧
    ∀ (index : Nat) (group : Component),
      (Component.partition (leftover workflow workflow.mainBuild.progress))[index]? =
        some group →
      ∃ expr, workflow.compile.components[index]? = some expr ∧ group.Shows workflow expr ∧
        ∀ fewer, Workflow.load (document.keepEdges (group.map Prod.fst).contains) = .ok fewer →
          fewer.compile.main = .empty ∧ fewer.compile.components = [expr] := by
  have coherent := Workflow.coherent_of_load loaded
  have complete := Workflow.complete_of_load loaded
  refine ⟨fun kept fits => Workflow.exists_load_keepEdges loaded fits kept, ?_, ?_⟩
  · intro fewer loadedFewer
    obtain ⟨twin, embeds⟩ := Workflow.exists_embeds_keepEdges loaded loadedFewer
    have entriesKept := (Workflow.sound_mainBuild coherent).2
    exact (expr_mainBuild_of_embeds embeds (isolated_processed coherent complete settled)
      fun edge isEntry => List.contains_iff_mem.mpr (entriesKept edge isEntry)).symm
  · intro index group atIndex
    obtain ⟨components, shows⟩ := settled.components_compile coherent
    have isGroup := List.mem_of_getElem? atIndex
    refine ⟨workflow.componentExpr group, ?_, shows group isGroup, ?_⟩
    · rw [components, List.getElem?_map, atIndex]
      rfl
    · intro fewer loadedFewer
      obtain ⟨twin, embeds⟩ := Workflow.exists_embeds_keepEdges loaded loadedFewer
      exact compile_of_embeds_group complete settled isGroup embeds (shows group isGroup).inhabited

def interleaved : Document :=
  (((((((Document.ofEntrypoint "entry").addNodes ["a", "b", "x", "y", "z", "p", "q"]).addEdge
    "x" "y").addEdge "entry" "a").addEdge "p" "q").addEdge "a" "b").addEdge "x" "z").addEdge
      "y" "z" |>.addEdge "b" "a" |>.addEdge "z" "y"

/-- The circle is built alike without the other parts, and so are the two branches. -/
theorem compile_is_local_interleaved :
    ∃ workflow mainOnly branchesOnly, Workflow.load interleaved = .ok workflow ∧
      workflow.Settled ∧ workflow.mainBuild.progress.processed = [⟨6⟩, ⟨3⟩, ⟨1⟩] ∧
      Workflow.load (interleaved.keepEdges workflow.mainBuild.progress.isProcessed) =
        .ok mainOnly ∧
      mainOnly.compile.main = .sequence (.sequence (.node ⟨0⟩) (.node ⟨1⟩)) (.node ⟨0⟩) ∧
      Workflow.load (interleaved.keepEdges [⟨0⟩, ⟨4⟩, ⟨5⟩, ⟨7⟩].contains) = .ok branchesOnly ∧
      branchesOnly.compile.main = .empty ∧
      branchesOnly.compile.components = [.sequence (.node ⟨2⟩) (.set [.sequence (.sequence
        (.node ⟨3⟩) (.node ⟨4⟩)) (.node ⟨3⟩), .node ⟨4⟩])] := by
  have evaluated : ((Workflow.load interleaved).toOption.map fun workflow =>
      (decide (workflow.Settled ∧ workflow.idents.byteSize < UInt64.size),
        workflow.mainBuild.progress.processed,
        (Component.partition (leftover workflow workflow.mainBuild.progress)).map
          (List.map Prod.fst),
        workflow.compile.main, workflow.compile.components)) =
      some (true, [⟨6⟩, ⟨3⟩, ⟨1⟩], [[⟨0⟩, ⟨4⟩, ⟨5⟩, ⟨7⟩], [⟨2⟩]],
        .sequence (.sequence (.node ⟨0⟩) (.node ⟨1⟩)) (.node ⟨0⟩),
        [.sequence (.node ⟨2⟩) (.set [.sequence (.sequence (.node ⟨3⟩) (.node ⟨4⟩))
          (.node ⟨3⟩), .node ⟨4⟩]), .sequence (.node ⟨5⟩) (.node ⟨6⟩)]) := by
    decide +kernel
  obtain ⟨workflow, loaded, views⟩ := Workflow.exists_load_of_map_toOption evaluated
  simp only [Prod.mk.injEq, decide_eq_true_eq] at views
  obtain ⟨⟨settled, fits⟩, processed, groups, main, components⟩ := views
  obtain ⟨group, rest, isPartition, ids, _⟩ := List.map_eq_cons_iff.mp groups
  have isFirst : (Component.partition (leftover workflow workflow.mainBuild.progress))[0]? =
      some group := by
    rw [isPartition]
    rfl
  obtain ⟨loads, mainAlike, partsAlike⟩ := compile_is_local loaded settled
  obtain ⟨mainOnly, loadedMain⟩ := loads workflow.mainBuild.progress.isProcessed fits
  obtain ⟨branchesOnly, loadedBranches⟩ := loads (group.map Prod.fst).contains fits
  obtain ⟨expr, atIndex, _, alone⟩ := partsAlike 0 group isFirst
  obtain ⟨noMain, onlyComponent⟩ := alone branchesOnly loadedBranches
  rw [components] at atIndex
  cases atIndex
  exact ⟨workflow, mainOnly, branchesOnly, loaded, settled, processed, loadedMain,
    (mainAlike mainOnly loadedMain).trans main, ids ▸ loadedBranches, noMain, onlyComponent⟩

end FlowGraph
