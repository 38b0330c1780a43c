import FlowGraph.Proofs.DiamondBuilds

/-!
Documents whose edges form a diamond. However the entries are ordered and however long the two
branches are, such a document compiles to one expression: the stem, both branches side by side,
and what comes where they meet.
-/

namespace FlowGraph

open FlowGraph.Build FlowGraph.Expr

/-- The edges of a document lead from the entrypoint along a stem, on from there along two
branches to the place where these meet, and further along a tail. All of it are declared nodes
that are left through no port. -/
structure Document.IsDiamond (document : Document) (entry : String) (stem left right : List String)
    (merge : String) (tail : List String) : Prop where
  entrypoint : document.entrypoint = some entry
  noTriggers : document.triggers = []
  declared : ∀ id ∈ stem ++ left ++ right ++ merge :: tail, ∃ node ∈ document.nodes, node.id = id
  distinct : (entry :: (stem ++ left ++ right ++ merge :: tail)).Nodup
  leftInhabited : left ≠ []
  rightInhabited : right ≠ []
  edges : (document.edges.map fun edge => (edge.sourceNode, edge.targetNode)).Perm
    (linksAlong entry (stem ++ left ++ [merge]) ++
      linksAlong (stem.getLastD entry) (right ++ [merge]) ++ linksAlong merge tail)
  portless : ∀ edge ∈ document.edges, edge.sourceNode ≠ entry → edge.sourcePort = none

namespace Document.IsDiamond

variable {document : Document} {workflow : Workflow} {entry merge : String}
  {stem left right tail : List String}
  (isDiamond : document.IsDiamond entry stem left right merge tail)

def origin (document : Document) (entry id : String) : Option Reference :=
  if id = entry then none else some (.node (place document id))

def nodes (document : Document) (stem left right : List String) (merge : String)
    (tail : List String) : Diamond where
  stem := stem.map (place document)
  left := left.map (place document)
  right := right.map (place document)
  merge := place document merge
  tail := tail.map (place document)

include isDiamond

theorem nodeOf?_eq_some {id : String} (present : id ∈ stem ++ left ++ right ++ merge :: tail) :
    document.nodeOf? id = some (place document id) :=
  document.nodeOf?_eq_place (isDiamond.declared id present)

theorem origin_eq {id : String} (present : id ∈ stem ++ left ++ right ++ merge :: tail) :
    origin document entry id = some (.node (place document id)) := by
  refine if_neg ?_
  rintro rfl
  exact (List.nodup_cons.mp isDiamond.distinct).1 present

theorem ends_mem {edge : EdgeEntry} (present : edge ∈ document.edges) :
    (edge.sourceNode = entry ∨ edge.sourceNode ∈ stem ++ left ++ right ++ merge :: tail) ∧
      edge.targetNode ∈ stem ++ left ++ right ++ merge :: tail := by
  have isLink := isDiamond.edges.subset (List.mem_map_of_mem present)
  have lastOfStem : stem.getLastD entry = entry ∨ stem.getLastD entry ∈ stem := by
    rcases List.eq_nil_or_concat stem with rfl | ⟨front, last, rfl⟩
    · exact Or.inl rfl
    · rw [List.concat_eq_append, List.getLastD_concat]
      exact Or.inr (by simp)
  rcases List.mem_append.mp isLink with inBranches | onTail
  · rcases List.mem_append.mp inBranches with onLeft | onRight
    · have ends := ends_of_mem_linksAlong onLeft
      grind
    · have ends := ends_of_mem_linksAlong onRight
      grind
  · have ends := ends_of_mem_linksAlong onTail
    grind

theorem resolve_eq {edge : EdgeEntry} (present : edge ∈ document.edges) :
    document.resolve edge = .ok (hopOf (origin document entry) (place document)
      (edge.sourceNode, edge.targetNode)) := by
  obtain ⟨isSource, isTarget⟩ := isDiamond.ends_mem present
  unfold Document.resolve
  rw [isDiamond.nodeOf?_eq_some isTarget, isDiamond.entrypoint]
  by_cases atEntry : edge.sourceNode = entry
  · simp [hopOf, origin, atEntry]
  · have noTrigger : document.triggerOf? edge.sourceNode = none := by
      rw [Document.triggerOf?, isDiamond.noTriggers]
      rfl
    have found := isDiamond.nodeOf?_eq_some (isSource.resolve_left atEntry)
    have differs : ¬some entry = some edge.sourceNode := fun same =>
      atEntry (Option.some.inj same).symm
    dsimp only
    rw [if_neg differs, noTrigger, found, isDiamond.portless edge present atEntry, hopOf,
      origin, if_neg atEntry]
    rfl

theorem map_links :
    (linksAlong entry (stem ++ left ++ [merge]) ++
        linksAlong (stem.getLastD entry) (right ++ [merge]) ++ linksAlong merge tail).map
      (hopOf (origin document entry) (place document)) =
    hopsFrom none (stem.map (place document)) ++
        hopsFrom (nodes document stem left right merge tail).fork
          ((left ++ [merge]).map (place document)) ++
      hopsFrom (nodes document stem left right merge tail).fork
          ((right ++ [merge]).map (place document)) ++
        hopsFrom (some (.node (place document merge))) (tail.map (place document)) := by
  have atEntry : origin document entry entry = none := if_pos rfl
  have isFork : origin document entry (stem.getLastD entry) =
      (nodes document stem left right merge tail).fork := by
    have leaves : ∀ id ∈ stem, origin document entry id = some (.node (place document id)) :=
      fun id present => isDiamond.origin_eq (by simp [present])
    rw [origin_getLastD leaves, atEntry]
    rfl
  have atMerge : origin document entry merge = some (.node (place document merge)) :=
    isDiamond.origin_eq (by simp)
  rw [List.map_append, List.map_append, map_linksAlong, map_linksAlong, map_linksAlong, atEntry,
    isFork, atMerge, List.append_assoc stem, List.map_append, hopsFrom_append]
  · rfl
  · intro id present
    exact isDiamond.origin_eq (by simp [List.dropLast_subset tail present])
  · rw [List.dropLast_concat]
    intro id present
    exact isDiamond.origin_eq (by simp [present])
  · rw [List.dropLast_concat]
    intro id present
    exact isDiamond.origin_eq (List.mem_append_left _ (List.mem_append_left _ present))

theorem perm_hops : (document.edges.map document.resolve).Perm
    ((nodes document stem left right merge tail).hops.map .ok) := by
  have resolved : document.edges.map document.resolve =
      ((document.edges.map fun edge => (edge.sourceNode, edge.targetNode)).map
        (hopOf (origin document entry) (place document))).map .ok := by
    rw [List.map_map, List.map_map]
    exact List.map_congr_left fun edge present => isDiamond.resolve_eq present
  rw [resolved]
  refine List.Perm.map _ ((isDiamond.edges.map _).trans ?_)
  rw [isDiamond.map_links]
  have regrouped : ∀ branch : List NodeId,
      branch ++ place document merge :: tail.map (place document) =
        (branch ++ [place document merge]) ++ tail.map (place document) := by simp
  refine List.perm_iff_count.mpr fun hop => ?_
  simp only [Diamond.hops, Diamond.hopsAlong, nodes, List.map_append, List.map_singleton, regrouped,
    hopsFrom_append _ (_ ++ [_]), endOf_concat, List.count_append]
  omega

theorem proper : (nodes document stem left right merge tail).Proper where
  distinct := by
    have apart : (stem ++ ((left ++ merge :: tail) ++ right)).Nodup := by
      refine List.Perm.nodup_iff (List.perm_iff_count.mpr ?_) |>.mp
        (List.nodup_cons.mp isDiamond.distinct).2
      intro id
      simp only [List.count_append]
      omega
    have isListed : ∀ id ∈ stem ++ ((left ++ merge :: tail) ++ right),
        id ∈ stem ++ left ++ right ++ merge :: tail := by
      intro id present
      simp only [List.mem_append] at present ⊢
      grind
    have places := document.nodup_places apart fun id present =>
      isDiamond.declared id (isListed id present)
    simpa [nodes] using places
  leftInhabited := mt List.map_eq_nil_iff.mp isDiamond.leftInhabited
  rightInhabited := mt List.map_eq_nil_iff.mp isDiamond.rightInhabited

theorem draws (loaded : Workflow.load document = .ok workflow) :
    workflow.Draws (nodes document stem left right merge tail).hops := by
  apply Workflow.draws_of_load loaded isDiamond.perm_hops (Diamond.nodup_hops isDiamond.proper)
  · exact fun _ _ _ => isDiamond.noTriggers
  · intro edge present hop isHop fromTarget
    obtain ⟨entering, isEntering, enters⟩ :=
      List.mem_map.mp (isDiamond.perm_hops.mem_iff.mpr (List.mem_map_of_mem isHop))
    rw [isDiamond.resolve_eq isEntering] at enters
    cases enters
    have isListed := (isDiamond.ends_mem isEntering).2
    have sameId := document.eq_of_nodeOf? fromTarget (isDiamond.nodeOf?_eq_some isListed)
    refine ⟨place document edge.targetNode, ?_⟩
    rw [isDiamond.resolve_eq present, hopOf, sameId, isDiamond.origin_eq isListed]
    rfl

end Document.IsDiamond

/-! ### Main result -/

/-- A document whose edges form a diamond compiles to the main expression alone, and that is the
stem, the two branches side by side, the node where they meet and the tail, up to the order of
the branches. -/
theorem compile_of_isDiamond {document : Document} {workflow : Workflow}
    (loaded : Workflow.load document = .ok workflow) {entry merge : String}
    {stem left right tail : List String}
    (isDiamond : document.IsDiamond entry stem left right merge tail) :
    workflow.compile.components = [] ∧
      ∃ nodeOf : String → Expr,
        (∀ id ∈ stem ++ left ++ right ++ merge :: tail,
          (workflow.findNode? id).map Expr.node = some (nodeOf id)) ∧
        workflow.compile.main.canonical =
          (chain (stem.map nodeOf ++
            [.set [chain (left.map nodeOf), chain (right.map nodeOf)], nodeOf merge] ++
              tail.map nodeOf)).canonical := by
  have coherent := Workflow.coherent_of_load loaded
  have complete := Workflow.complete_of_load loaded
  have written := Workflow.written_of_load loaded
  have noTrigger : entryTriggers workflow = [] := by
    refine List.eq_nil_iff_forall_not_mem.mpr fun head isStart => ?_
    obtain ⟨_, _, _, _, _, declared, _⟩ := mem_entryTriggers.mp isStart
    have impossible := coherent.triggersExist declared
    rw [written.hasTriggers_eq_false isDiamond.noTriggers] at impossible
    cases impossible
  obtain ⟨noComponents, main⟩ := Diamond.compile coherent complete
    isDiamond.proper (isDiamond.draws loaded) noTrigger
  refine ⟨noComponents, fun id => .node (document.place id), ?_, ?_⟩
  · intro id present
    rw [written.findNode?_eq, isDiamond.nodeOf?_eq_some present]
    rfl
  · rw [main]
    simp [Diamond.shape, Document.IsDiamond.nodes, path, Function.comp_def]

def unevenBranches : Document :=
  (((((((Document.ofEntrypoint "entry").addNodes ["e", "m", "x", "a", "b", "p"]).addEdge
    "m" "e").addEdge "b" "m").addEdge "a" "b").addEdge "p" "x").addEdge "x" "m" |>.addEdge
      "entry" "p").addEdge "p" "a"

/-- The short branch comes to `m` and is followed to `e` before the longer one is there. -/
theorem compile_of_isDiamond_unevenBranches :
    ∃ workflow, Workflow.load unevenBranches = .ok workflow ∧
      unevenBranches.IsDiamond "entry" ["p"] ["a", "b"] ["x"] "m" ["e"] ∧
      workflow.compile.components = [] ∧
      workflow.compile.main = .sequence (.sequence (.sequence (.node ⟨5⟩)
        (.set [.node ⟨2⟩, .sequence (.node ⟨3⟩) (.node ⟨4⟩)])) (.node ⟨1⟩)) (.node ⟨0⟩) ∧
      ∃ nodeOf : String → Expr, nodeOf "p" = .node ⟨5⟩ ∧
        workflow.compile.main.canonical = (chain [nodeOf "p",
          .set [chain [nodeOf "a", nodeOf "b"], chain [nodeOf "x"]], nodeOf "m",
            nodeOf "e"]).canonical := by
  have evaluated : ((Workflow.load unevenBranches).toOption.map fun workflow =>
      (workflow.compile.main, workflow.findNode? "p")) =
      some (.sequence (.sequence (.sequence (.node ⟨5⟩)
        (.set [.node ⟨2⟩, .sequence (.node ⟨3⟩) (.node ⟨4⟩)])) (.node ⟨1⟩)) (.node ⟨0⟩),
        some ⟨5⟩) := by
    decide +kernel
  obtain ⟨workflow, loaded, views⟩ := Workflow.exists_load_of_map_toOption evaluated
  obtain ⟨main, isNode⟩ := Prod.mk.inj views
  have isDiamond : unevenBranches.IsDiamond "entry" ["p"] ["a", "b"] ["x"] "m" ["e"] := by
    refine ⟨rfl, rfl, ?_, ?_, List.cons_ne_nil _ _, List.cons_ne_nil _ _, ?_, ?_⟩
    · decide +kernel
    · decide +kernel
    · decide +kernel
    · decide +kernel
  obtain ⟨noComponents, nodeOf, found, shape⟩ := compile_of_isDiamond loaded isDiamond
  have stem := found "p" List.mem_cons_self
  rw [isNode] at stem
  exact ⟨workflow, loaded, isDiamond, noComponents, main, nodeOf, (Option.some.inj stem).symm,
    shape⟩

end FlowGraph
