import FlowGraph.Proofs.LoadableDocuments

/-!
What is reported about a document that is not accepted. Unless the entrypoint or an edge stops
the loading, every trigger and every node that is refused behind the entries before it counts
for one error, and the errors come in document order.
-/

namespace FlowGraph

/-! ### Texts of a document -/

namespace Document

variable (document : Document)

theorem triggerIds_subset :
    document.triggers.flatMap (fun entry => [entry.id]) ⊆ document.identTexts := by
  rw [identTexts, List.map_eq_flatMap]
  exact List.subset_append_of_subset_right _ (List.subset_append_left _ _)

theorem nodeIds_subset : document.nodes.flatMap NodeEntry.identTexts ⊆ document.identTexts :=
  List.subset_append_of_subset_right _
    (List.subset_append_of_subset_right _ (List.subset_append_left _ _))

private theorem edgeIds_subset :
    document.edges.flatMap EdgeEntry.identTexts ⊆ document.identTexts :=
  List.subset_append_of_subset_right _
    (List.subset_append_of_subset_right _ (List.subset_append_right _ _))

theorem triggerNames_subset :
    document.triggers.flatMap (fun entry => [entry.label.getD entry.id]) ⊆
      document.nameTexts := by
  rw [nameTexts, List.map_eq_flatMap]
  exact List.subset_append_left _ _

theorem nodeNames_subset : document.nodes.flatMap NodeEntry.nameTexts ⊆ document.nameTexts :=
  List.subset_append_right _ _

end Document

namespace Workflow

variable {workflow : Workflow} {document : Document}

/-! ### Places of refused entries -/

section Places

variable {Entry : Type} (add : Workflow → Entry → Workflow × Except LoadError Unit)

def errorAt (workflow : Workflow) (entries : List Entry) (place : Nat) : Option LoadError :=
  entries[place]?.bind fun entry =>
    match (add (addAll add workflow (entries.take place)).1 entry).2 with
    | .ok () => none
    | .error error => some error

def refusedPlaces (workflow : Workflow) (entries : List Entry) : List Nat :=
  (List.range entries.length).filter fun place => (errorAt add workflow entries place).isSome

variable {add}

private theorem errorAt_cons_succ (entry : Entry) (rest : List Entry) (place : Nat) :
    errorAt add workflow (entry :: rest) (place + 1) =
      errorAt add (add workflow entry).1 rest place := by
  rw [errorAt, errorAt, List.getElem?_cons_succ, List.take_succ_cons, EntryLaws.addAll_cons_fst]

private theorem addAll_snd (workflow : Workflow) (entries : List Entry) :
    (addAll add workflow entries).2 =
      (List.range entries.length).filterMap (errorAt add workflow entries) := by
  induction entries generalizing workflow with
  | nil => rfl
  | cons entry rest ih =>
      have ofRest : ((List.range rest.length).map Nat.succ).filterMap
          (errorAt add workflow (entry :: rest)) = (addAll add (add workflow entry).1 rest).2 := by
        rw [ih, List.filterMap_map]
        exact List.filterMap_congr fun place _ => errorAt_cons_succ entry rest place
      have first : errorAt add workflow (entry :: rest) 0 =
          match (add workflow entry).2 with
          | .ok () => none
          | .error error => some error := rfl
      rw [List.length_cons, List.range_succ_eq_map, List.filterMap_cons, ofRest, first, addAll]
      rcases add workflow entry with ⟨known, error | _⟩ <;> rfl

private theorem length_addAll_snd (workflow : Workflow) (entries : List Entry) :
    (addAll add workflow entries).2.length = (refusedPlaces add workflow entries).length := by
  rw [addAll_snd, List.length_filterMap_eq_countP, refusedPlaces, List.countP_eq_length_filter]

end Places

/-! ### Stages of loading -/

/-- Neither the entrypoint nor an edge of a document stops its loading. Triggers are added to
`start`, nodes to `known` and edges to `base`. -/
structure Reaches (document : Document) (start known base : Workflow) : Prop where
  entrypoint : ofEntrypoint document.entrypoint = .ok start
  triggers : (addAll addTrigger start document.triggers).1 = known
  nodes : (addAll addNode known document.nodes).1 = base
  edges : ∃ workflow, document.edges.foldlM addEdge base = .ok workflow

theorem Reaches.load_eq {start known base : Workflow} (reaches : Reaches document start known base)
    {errors : List LoadError}
    (collected : errors = (addAll addTrigger start document.triggers).2 ++
      (addAll addNode known document.nodes).2) :
    (errors = [] ∧ ∃ workflow, load document = .ok workflow) ∨
      (errors ≠ [] ∧ load document = .error (.rejected errors)) := by
  obtain ⟨made, rfl, rfl, workflow, edgesAdded⟩ := reaches
  subst collected
  unfold load
  simp only [made, edgesAdded]
  split
  · exact Or.inl ⟨‹_›, workflow, rfl⟩
  · rename_i isError
    exact Or.inr ⟨isError, rfl⟩

theorem textsAmong_ofEntrypoint {start : Workflow}
    (made : ofEntrypoint document.entrypoint = .ok start) :
    start.TextsAmong document.identTexts document.nameTexts := by
  obtain ⟨took, _⟩ := took_ofEntrypoint made
  refine ⟨fun text stored => ?_, fun text stored => ?_⟩
  · rw [Interner.toList_internAll Interner.lawful_empty [] Interner.toList_strings_empty took.ids,
      List.nil_append, List.mem_eraseDups] at stored
    exact List.mem_append_left _ stored
  · rw [Interner.toList_internAll Interner.lawful_empty [] Interner.toList_strings_empty
      took.names] at stored
    exact absurd stored List.not_mem_nil

/-- If all raw ids fit, whatever is refused, and all edges do, then loading is not stopped. -/
theorem exists_reaches (identsFit : FitsAnyhow (2 ^ 32) (2 ^ 64) document.identTexts)
    (edgesFit : document.edges.length < 2 ^ 32) :
    ∃ start known base, Reaches document start known base := by
  have takes : empty.TakesTexts (document.entrypoint.toList ++ _) ([] ++ []) :=
    ⟨(Interner.exists_internAll_empty_iff (by decide) document.identTexts).mpr identsFit.fits,
      _, rfl⟩
  obtain ⟨start, made⟩ := exists_ofEntrypoint takes
  obtain ⟨_, registers, noEdges⟩ := took_ofEntrypoint made
  have grownTriggers : Extends start (addAll addTrigger start document.triggers).1 :=
    triggerLaws.extends_addAll registers.coherent
  have coherentKnown := grownTriggers.coherent registers.coherent
  have grownNodes : Extends _ (addAll addNode _ document.nodes).1 :=
    nodeLaws.extends_addAll coherentKnown
  have coherentBase := grownNodes.coherent coherentKnown
  -- Whatever was refused, no other texts have been interned than those of the document.
  have amongBase := nodeLaws.among_addAll
    (triggerLaws.among_addAll (textsAmong_ofEntrypoint made) document.triggerIds_subset
      document.triggerNames_subset) document.nodeIds_subset document.nodeNames_subset
  obtain ⟨large, largeLawful, inside, largeFits⟩ := Interner.exists_large identsFit
  have taken := Interner.exists_internAll coherentBase.identsLawful largeLawful largeFits
    (List.Subset.trans amongBase.ids inside) (List.Subset.trans document.edgeIds_subset inside)
  have room : (addAll addNode (addAll addTrigger start document.triggers).1
      document.nodes).1.edges.size + document.edges.length ≤ EntryKind.edge.capacity := by
    rw [grownNodes.edges, grownTriggers.edges, noEdges]
    exact (Nat.zero_add _).trans_le (Nat.le_pred_of_lt edgesFit)
  exact ⟨start, _, _, made, rfl, rfl, (exists_foldlM_addEdge_iff coherentBase).mpr ⟨taken, room⟩⟩

end Workflow

/-! ### Outcomes -/

/-- A document is accepted exactly if it is loadable. If it is not, loading fails, and unless it
is stopped by the entrypoint or an edge, the errors are those of the refused triggers and then
those of the refused nodes, one each. -/
theorem load_outcome (document : Document) :
    ((∃ workflow, Workflow.load document = .ok workflow) ↔ document.Loadable) ∧
      (¬ document.Loadable → ∃ failure, Workflow.load document = .error failure) ∧
      ∀ start known base, Workflow.Reaches document start known base → ¬ document.Loadable →
        ∃ errors, Workflow.load document = .error (.rejected errors) ∧
          errors = (List.range document.triggers.length).filterMap
              (Workflow.errorAt Workflow.addTrigger start document.triggers) ++
            (List.range document.nodes.length).filterMap
              (Workflow.errorAt Workflow.addNode known document.nodes) ∧
          errors.length =
            (Workflow.refusedPlaces Workflow.addTrigger start document.triggers).length +
              (Workflow.refusedPlaces Workflow.addNode known document.nodes).length := by
  refine ⟨Workflow.exists_load_iff, fun notLoadable => ?_, ?_⟩
  · cases loaded : Workflow.load document with
    | ok workflow => exact absurd (Workflow.exists_load_iff.mp ⟨workflow, loaded⟩) notLoadable
    | error failure => exact ⟨failure, rfl⟩
  · intro start known base reaches notLoadable
    rcases reaches.load_eq rfl with ⟨_, accepted⟩ | ⟨_, rejected⟩
    · exact absurd (Workflow.exists_load_iff.mp accepted) notLoadable
    · refine ⟨_, rejected, ?_, ?_⟩
      · rw [Workflow.addAll_snd, Workflow.addAll_snd]
      · rw [List.length_append, Workflow.length_addAll_snd, Workflow.length_addAll_snd]

def fourRefusals : Document :=
  { triggers := [{ id := "t" }, { id := "t", label := some "again" }]
    nodes :=
      [{ id := "a", ports := [{ id := "p", name := "on" }, { id := "p", name := "off" }] },
        { id := "t" },
        { id := "b", ports := [{ id := "q", name := "on" }] },
        { id := "c", defaultPort := some "q" }]
    edges := [{ id := "e", sourceNode := "a", targetNode := "b" }] }

/-- The node whose port is refused counts for one error, and the sound one between the others
for none. -/
theorem load_outcome_fourRefusals : ¬ fourRefusals.Loadable ∧
    ∃ start known base errors, Workflow.Reaches fourRefusals start known base ∧
      Workflow.load fourRefusals = .error (.rejected errors) ∧
      errors = [.duplicateId .trigger "t", .duplicateId .port "p", .duplicateId .node "t",
        .unknownDefaultPort "c" "q"] ∧
      Workflow.refusedPlaces Workflow.addTrigger start fourRefusals.triggers = [1] ∧
      Workflow.refusedPlaces Workflow.addNode known fourRefusals.nodes = [0, 1, 3] ∧
      errors.length = 1 + 3 := by
  have notLoadable : ¬ fourRefusals.Loadable := fun loadable =>
    absurd loadable.ids (by decide +kernel)
  have fits : FitsAnyhow (2 ^ 32) (2 ^ 64) fourRefusals.identTexts :=
    ⟨by decide +kernel, by decide +kernel⟩
  obtain ⟨start, known, base, reaches⟩ := Workflow.exists_reaches fits (by decide)
  obtain ⟨errors, rejected, areThose, count⟩ :=
    (load_outcome fourRefusals).2.2 start known base reaches notLoadable
  obtain rfl : Workflow.empty = start := Except.ok.inj reaches.entrypoint
  obtain rfl := reaches.triggers
  have places : Workflow.refusedPlaces Workflow.addTrigger .empty fourRefusals.triggers = [1] ∧
      Workflow.refusedPlaces Workflow.addNode
        (Workflow.addAll Workflow.addTrigger .empty fourRefusals.triggers).1
          fourRefusals.nodes = [0, 1, 3] := by
    decide +kernel
  refine ⟨notLoadable, _, _, base, errors, reaches, rejected, ?_, places.1, places.2, ?_⟩
  · rw [areThose]
    decide +kernel
  · rwa [places.1, places.2] at count

end FlowGraph
