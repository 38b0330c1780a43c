import FlowGraph.Proofs.Embedding
import FlowGraph.Proofs.LoadedDocument
import Mathlib.Data.List.Basic

/-!
Documents from which edges are deleted. What is left loads as well, and into a workflow that
the whole one embeds: the declarations are the same, and raw ids correspond by their texts.
-/

namespace FlowGraph

def Document.keepEdges (document : Document) (kept : EdgeId → Bool) : Document :=
  { document with
    edges := (document.edges.zipIdx.filter fun entry => kept ⟨entry.2⟩).map Prod.fst }

private theorem Document.keepEdges_sublist (document : Document) (kept : EdgeId → Bool) :
    (document.keepEdges kept).edges.Sublist document.edges := by
  have inside := (List.filter_sublist (p := fun entry => kept ⟨entry.2⟩)
    (l := document.edges.zipIdx)).map Prod.fst
  rw [List.zipIdx_map_fst] at inside
  exact inside

namespace Workflow

/-! ### Room for the edges that are left -/

section Room

variable {workflow large : Workflow}

def TextsWithin (workflow large : Workflow) : Prop :=
  workflow.idents.strings.toList ⊆ large.idents.strings.toList

private theorem mem_texts_of_identText? {ident : IdentId} {text : String}
    (isText : large.identText? ident = some text) : text ∈ large.idents.strings.toList :=
  Array.mem_toList_iff.mpr (Array.mem_of_getElem? (identText?_eq_some.mp isText))

private theorem exists_internIdent (coherent : workflow.Coherent) (largeCoherent : large.Coherent)
    (fits : large.idents.byteSize < UInt64.size) (within : TextsWithin workflow large)
    {id : String} {known : IdentId} (isText : large.identText? known = some id) :
    ∃ next ident, workflow.internIdent id = (next, .ok ident) ∧ TextsWithin next large := by
  obtain ⟨idents, key, interned, stillWithin⟩ := Interner.exists_intern coherent.identsLawful
    largeCoherent.identsLawful fits within (mem_texts_of_identText? isText)
  refine ⟨{ workflow with idents := idents }, ⟨key⟩, ?_, stillWithin⟩
  unfold internIdent
  rw [interned]
  rfl

private theorem exists_internIdent? (coherent : workflow.Coherent) (largeCoherent : large.Coherent)
    (fits : large.idents.byteSize < UInt64.size) (within : TextsWithin workflow large)
    {id : Option String} {known : Option IdentId}
    (isText : known.map large.identText? = id.map some) :
    ∃ next ident, workflow.internIdent? id = (next, .ok ident) ∧ TextsWithin next large := by
  cases id with
  | none => exact ⟨workflow, none, rfl, within⟩
  | some id =>
      cases known with
      | none => cases isText
      | some known =>
          obtain ⟨next, ident, interned, stillWithin⟩ :=
            exists_internIdent coherent largeCoherent fits within (Option.some.inj isText)
          exact ⟨next, some ident, by simp [internIdent?, interned, Except.map], stillWithin⟩

private theorem exists_internEdge (coherent : workflow.Coherent) (largeCoherent : large.Coherent)
    (fits : large.idents.byteSize < UInt64.size) (within : TextsWithin workflow large)
    {entry : EdgeEntry} {known : Edge} (reads : large.Reads entry known) :
    ∃ next edge, workflow.internEdge entry = (next, .ok edge) ∧ TextsWithin next large := by
  obtain ⟨first, ident, ofEdge, firstWithin⟩ :=
    exists_internIdent coherent largeCoherent fits within reads.ident
  have firstCoherent := (interns_internIdent ofEdge).coherent coherent
  obtain ⟨second, sourceNode, ofSource, secondWithin⟩ :=
    exists_internIdent firstCoherent largeCoherent fits firstWithin reads.sourceNode
  have secondCoherent := (interns_internIdent ofSource).coherent firstCoherent
  obtain ⟨third, sourcePort, ofSourcePort, thirdWithin⟩ :=
    exists_internIdent? secondCoherent largeCoherent fits secondWithin reads.sourcePort
  have thirdCoherent := (interns_internIdent? ofSourcePort).coherent secondCoherent
  obtain ⟨fourth, targetNode, ofTarget, fourthWithin⟩ :=
    exists_internIdent thirdCoherent largeCoherent fits thirdWithin reads.targetNode
  have fourthCoherent := (interns_internIdent ofTarget).coherent thirdCoherent
  obtain ⟨fifth, targetPort, ofTargetPort, fifthWithin⟩ :=
    exists_internIdent? fourthCoherent largeCoherent fits fourthWithin reads.targetPort
  refine ⟨fifth, ⟨ident, sourceNode, sourcePort, targetNode, targetPort⟩, ?_, fifthWithin⟩
  simp only [internEdge, ofEdge, ofSource, ofSourcePort, ofTarget, ofTargetPort]

private theorem exists_addEdge (coherent : workflow.Coherent) (largeCoherent : large.Coherent)
    (fits : large.idents.byteSize < UInt64.size) (within : TextsWithin workflow large)
    {entry : EdgeEntry} {known : Edge} (reads : large.Reads entry known)
    (room : workflow.edges.size < EntryKind.edge.capacity) :
    ∃ next, workflow.addEdge entry = .ok next ∧ TextsWithin next large ∧
      next.edges.size = workflow.edges.size + 1 := by
  obtain ⟨interned, edge, ofEdge, stillWithin⟩ :=
    exists_internEdge coherent largeCoherent fits within reads
  have sameEdges := (internEdge_spec coherent ofEdge).1.edges
  refine ⟨{ interned with edges := interned.edges.push edge }, ?_, stillWithin, ?_⟩
  · unfold addEdge
    rw [ofEdge]
    dsimp only
    rw [sameEdges, if_neg (Nat.not_le.mpr room)]
  · rw [Arena.size_push, sameEdges]

private theorem exists_foldlM_addEdge (largeCoherent : large.Coherent)
    (fits : large.idents.byteSize < UInt64.size) {entries : List EdgeEntry}
    (coherent : workflow.Coherent) (within : TextsWithin workflow large)
    (reads : ∀ entry ∈ entries, ∃ known, large.Reads entry known)
    (room : workflow.edges.size + entries.length ≤ EntryKind.edge.capacity) :
    ∃ next, entries.foldlM addEdge workflow = .ok next := by
  induction entries generalizing workflow with
  | nil => exact ⟨workflow, rfl⟩
  | cons entry rest ih =>
      obtain ⟨known, readsFirst⟩ := reads entry List.mem_cons_self
      rw [List.length_cons] at room
      obtain ⟨next, added, stillWithin, oneMore⟩ :=
        exists_addEdge coherent largeCoherent fits within readsFirst (by omega)
      obtain ⟨last, addedRest⟩ := ih (addsEdges_addEdge coherent added).coherent stillWithin
        (fun other later => reads other (List.mem_cons_of_mem entry later)) (by omega)
      refine ⟨last, ?_⟩
      rw [List.foldlM_cons, added]
      exact addedRest

end Room

private theorem textsWithin_of_grown {before after : Workflow}
    (grown : before.idents.Grown after.idents) : TextsWithin before after := by
  intro text present
  obtain ⟨key, found⟩ := List.mem_iff_getElem?.mp present
  rw [Array.getElem?_toList] at found
  exact Array.mem_toList_iff.mpr (Array.mem_of_getElem? (grown key text found))

/-- A document stays loadable with no other edges than its own, and no more of them, as long as
its texts are not so long that their total length does not fit in the type of the offsets. -/
theorem exists_load_setEdges {document : Document} {workflow : Workflow}
    (loaded : load document = .ok workflow) (fits : workflow.idents.byteSize < UInt64.size)
    {entries : List EdgeEntry} (inside : entries ⊆ document.edges)
    (noMore : entries.length ≤ document.edges.length) :
    ∃ other, load { document with edges := entries } = .ok other := by
  obtain ⟨base, baseLoaded, baseCoherent, adds, reads⟩ := exists_base_of_load loaded
  have room : base.edges.size + entries.length ≤ EntryKind.edge.capacity := by
    have allFit := adds.coherent.edgesFit
    have sizeIs : workflow.edges.size = document.edges.length :=
      Array.length_toList.symm.trans reads.length_eq.symm
    have none : base.edges.size = 0 := by
      rw [(coherent_base baseLoaded).2]
      rfl
    simp only [EntryKind.capacity]
    omega
  have readsInside : ∀ entry ∈ entries, ∃ known, workflow.Reads entry known := by
    intro entry isEntry
    have flipped : List.Forall₂ (flip workflow.Reads) workflow.edges.toList document.edges :=
      List.Forall₂.flip reads
    obtain ⟨known, _, readsEntry⟩ := exists_partner flipped (inside isEntry)
    exact ⟨known, readsEntry⟩
  obtain ⟨other, added⟩ := exists_foldlM_addEdge adds.coherent fits baseCoherent
    (textsWithin_of_grown adds.grown) readsInside room
  exact ⟨other, load_eq_ok_iff.mpr ⟨base, baseLoaded, added⟩⟩

theorem exists_load_keepEdges {document : Document} {workflow : Workflow}
    (loaded : load document = .ok workflow) (fits : workflow.idents.byteSize < UInt64.size)
    (kept : EdgeId → Bool) : ∃ fewer, load (document.keepEdges kept) = .ok fewer :=
  have sublist := document.keepEdges_sublist kept
  exists_load_setEdges loaded fits sublist.subset sublist.length_le

/-! ### Raw ids by their texts -/

def SameText (small large : Workflow) (left right : IdentId) : Prop :=
  ∃ text, small.identText? left = some text ∧ large.identText? right = some text

section Texts

variable {base small large : Workflow} {entries others : List EdgeEntry}
  {left right : IdentId}

private theorem biUnique_sameText (smallCoherent : small.Coherent)
    (largeCoherent : large.Coherent) : Relator.BiUnique (SameText small large) := by
  constructor
  · rintro first second other ⟨text, ofFirst, ofOther⟩ ⟨again, ofSecond, alsoOther⟩
    rw [ofOther] at alsoOther
    cases alsoOther
    exact smallCoherent.ident_eq_of_identText? ofFirst ofSecond
  · rintro other first second ⟨text, ofOther, ofFirst⟩ ⟨again, alsoOther, ofSecond⟩
    rw [ofOther] at alsoOther
    cases alsoOther
    exact largeCoherent.ident_eq_of_identText? ofFirst ofSecond

private theorem exists_identText?_of_mentions (coherent : base.Coherent) {ident : IdentId}
    (mentioned : base.Mentions ident) : ∃ text, base.identText? ident = some text := by
  have bound := coherent.mentionsInterned mentioned
  rw [← Interner.size_strings] at bound
  exact ⟨_, identText?_eq_some.mpr (Array.getElem?_eq_getElem bound)⟩

variable (coherent : base.Coherent) (ofSmall : AddsEdges base entries small)
  (ofLarge : AddsEdges base others large)
include coherent ofSmall ofLarge

private theorem sameText_of_mentions {ident : IdentId} (mentioned : base.Mentions ident) :
    SameText small large ident ident := by
  obtain ⟨text, isText⟩ := exists_identText?_of_mentions coherent mentioned
  exact ⟨text, identText?_of_grown ofSmall.grown isText, identText?_of_grown ofLarge.grown isText⟩

private theorem eq_or_not_mentions (alike : SameText small large left right) :
    left = right ∨ ¬ base.Mentions left ∧ ¬ base.Mentions right := by
  have unique := biUnique_sameText ofSmall.coherent ofLarge.coherent
  by_cases ofLeft : base.Mentions left
  · exact Or.inl (unique.2 (sameText_of_mentions coherent ofSmall ofLarge ofLeft) alike)
  · by_cases ofRight : base.Mentions right
    · exact Or.inl (unique.1 alike (sameText_of_mentions coherent ofSmall ofLarge ofRight))
    · exact Or.inr ⟨ofLeft, ofRight⟩

/-- A question about declarations is answered alike for idents of the same text, if it has
one answer for all idents that nothing mentions. -/
theorem answer_congr {Answer : Type} (ask : Workflow → IdentId → Answer)
    (ofDeclarations : ∀ idents edges, ask { base with idents := idents, edges := edges } = ask base)
    (unknown : Answer) (unmentioned : ∀ ident, ¬ base.Mentions ident → ask base ident = unknown)
    (alike : SameText small large left right) : ask small left = ask large right := by
  have onSmall : ask small = ask base := by
    rw [ofSmall.rest]
    exact ofDeclarations _ _
  have onLarge : ask large = ask base := by
    rw [ofLarge.rest]
    exact ofDeclarations _ _
  rw [onSmall, onLarge]
  rcases eq_or_not_mentions coherent ofSmall ofLarge alike with rfl | ⟨notLeft, notRight⟩
  · rfl
  · rw [unmentioned left notLeft, unmentioned right notRight]

theorem agree_sameText : Agree (SameText small large) small large where
  unique := biUnique_sameText ofSmall.coherent ofLarge.coherent
  hasTriggers := by
    rw [ofSmall.rest, ofLarge.rest]
    rfl
  isEntrypoint := by
    refine answer_congr coherent ofSmall ofLarge Workflow.isEntrypoint (fun _ _ => rfl) false ?_
    intro ident notMentioned
    rw [isEntrypoint, beq_eq_false_iff_ne]
    exact fun entrance => notMentioned (Or.inr (Or.inr entrance))
  lookupTrigger? := by
    refine answer_congr coherent ofSmall ofLarge Workflow.lookupTrigger? (fun _ _ => rfl) none ?_
    intro ident notMentioned
    exact (lookup_eq_none_of_not_declares fun declared => notMentioned (Or.inl declared)).1
  lookupNode? := by
    refine answer_congr coherent ofSmall ofLarge Workflow.lookupNode? (fun _ _ => rfl) none ?_
    intro ident notMentioned
    exact (lookup_eq_none_of_not_declares fun declared => notMentioned (Or.inl declared)).2
  lookupPort? := by
    refine answer_congr coherent ofSmall ofLarge Workflow.lookupPort? (fun _ _ => rfl) none ?_
    intro ident notMentioned
    exact Option.not_isSome_iff_eq_none.mp fun isPort => notMentioned (Or.inr (Or.inl isPort))
  node? := by
    intro node
    have onSmall : small.node? node = base.node? node := by rw [ofSmall.rest]; rfl
    have onLarge : large.node? node = base.node? node := by rw [ofLarge.rest]; rfl
    rw [onSmall, onLarge]
    cases isNode : base.node? node with
    | none => exact .none
    | some entry =>
        refine .some ⟨sameText_of_mentions coherent ofSmall ofLarge (Or.inl ?_), rfl, rfl⟩
        rw [declares, coherent.nodeDeclared isNode, Option.isSome_some, Bool.or_true]
  port? := by
    intro port
    have onSmall : small.port? port = base.port? port := by rw [ofSmall.rest]; rfl
    have onLarge : large.port? port = base.port? port := by rw [ofLarge.rest]; rfl
    rw [onSmall, onLarge]
    cases isPort : base.port? port with
    | none => exact .none
    | some entry =>
        refine .some ⟨sameText_of_mentions coherent ofSmall ofLarge (Or.inr (Or.inl ?_)), rfl⟩
        rw [coherent.portDeclared isPort, Option.isSome_some]

end Texts

/-! ### The ids of the edges that are left -/

/-- The id at a given place of a list, and ids beyond a bound for places beyond the list. -/
def idAt (ids : List EdgeId) (bound : Nat) (place : EdgeId) : EdgeId :=
  ids[place.number]?.getD ⟨bound + place.number⟩

private theorem injective_idAt {ids : List EdgeId} {bound : Nat} (distinct : ids.Nodup)
    (below : ∀ edge ∈ ids, edge.number < bound) : Function.Injective (idAt ids bound) := by
  rintro ⟨left⟩ ⟨right⟩ alike
  simp only [idAt] at alike
  -- An id of the list is below the bound, and one that stands for another place is not.
  cases atLeft : ids[left]? with
  | some edge =>
      have isBelow := below edge (List.mem_of_getElem? atLeft)
      cases atRight : ids[right]? with
      | some other =>
          rw [atLeft, atRight, Option.getD_some, Option.getD_some] at alike
          have inside := (List.getElem?_eq_some_iff.mp atLeft).choose
          rw [(List.getElem?_inj inside distinct).mp (atLeft.trans (alike ▸ atRight.symm))]
      | none =>
          rw [atLeft, atRight, Option.getD_some, Option.getD_none] at alike
          rw [alike] at isBelow
          exact absurd isBelow (by simp)
  | none =>
      cases atRight : ids[right]? with
      | some other =>
          have isBelow := below other (List.mem_of_getElem? atRight)
          rw [atLeft, atRight, Option.getD_some, Option.getD_none] at alike
          rw [← alike] at isBelow
          exact absurd isBelow (by simp)
      | none =>
          rw [atLeft, atRight, Option.getD_none, Option.getD_none, EdgeId.mk.injEq] at alike
          rw [Nat.add_left_cancel alike]

private theorem map_idAt {workflow : Workflow} (coherent : workflow.Coherent) {ids : List EdgeId}
    (sameLength : ids.length = workflow.edges.size) (bound : Nat) :
    workflow.edges.ids.map (idAt ids bound) = ids := by
  apply List.ext_getElem
  · rw [List.length_map, Arena.length_ids, sameLength]
  · intro place inMap inIds
    have number : ArenaId.ofPosition EdgeId place = ⟨place⟩ :=
      congrArg EdgeId.mk (Nat.mod_eq_of_lt (Nat.lt_trans (sameLength ▸ inIds) coherent.edgesFit))
    simp [Arena.ids, idAt, number, List.getElem?_eq_getElem inIds]

private theorem forall₂_of_common {First Second Third : Type} {toSecond : First → Second → Prop}
    {toThird : First → Third → Prop} {relation : Second → Third → Prop} {firsts : List First}
    {seconds : List Second} {thirds : List Third}
    (relates : ∀ first second third, toSecond first second → toThird first third →
      relation second third)
    (ofSeconds : List.Forall₂ toSecond firsts seconds)
    (ofThirds : List.Forall₂ toThird firsts thirds) : List.Forall₂ relation seconds thirds := by
  induction ofSeconds generalizing thirds with
  | nil =>
      cases ofThirds
      exact .nil
  | cons second _ ih =>
      cases ofThirds with
      | cons third rest => exact .cons (relates _ _ _ second third) (ih rest)

theorem sameEnds_of_reads {small large : Workflow} {entry : EdgeEntry} {edge other : Edge}
    (ofSmall : small.Reads entry edge) (ofLarge : large.Reads entry other) :
    SameEnds (SameText small large) edge other where
  sourceNode := ⟨_, ofSmall.sourceNode, ofLarge.sourceNode⟩
  sourcePort := by
    have ofPort := ofSmall.sourcePort
    have ofOther := ofLarge.sourcePort
    cases isPort : edge.sourcePort <;> cases isOther : other.sourcePort <;>
      cases isText : entry.sourcePort <;> simp_all [SameText]
  targetNode := ⟨_, ofSmall.targetNode, ofLarge.targetNode⟩

private theorem reads_enumerate {document : Document} {workflow : Workflow}
    (coherent : workflow.Coherent)
    (reads : List.Forall₂ workflow.Reads document.edges workflow.edges.toList) :
    List.Forall₂ (fun entry stored => stored.1 = ⟨entry.2⟩ ∧ workflow.Reads entry.1 stored.2)
      document.edges.zipIdx workflow.edges.enumerate := by
  have sizeIs : workflow.edges.values.size = document.edges.length :=
    Array.length_toList.symm.trans reads.length_eq.symm
  refine List.forall₂_iff_get.mpr ⟨?_, ?_⟩
  · rw [List.length_zipIdx, Arena.length_enumerate]
    exact sizeIs.symm
  · intro place inEntries inStored
    rw [List.length_zipIdx] at inEntries
    have inValues : place < workflow.edges.values.size := sizeIs.symm ▸ inEntries
    have inIds := Nat.lt_trans inValues coherent.edgesFit
    simp only [List.get_eq_getElem, List.getElem_zipIdx, Nat.zero_add,
      Arena.getElem_enumerate inStored inValues]
    refine ⟨congrArg EdgeId.mk (Nat.mod_eq_of_lt inIds), ?_⟩
    exact (List.forall₂_iff_get.mp reads).2 place inEntries inValues

private theorem sameEnds_keepEdges {document : Document} {workflow fewer : Workflow}
    {kept : EdgeId → Bool} (coherent : workflow.Coherent)
    (reads : List.Forall₂ workflow.Reads document.edges workflow.edges.toList)
    (readsFewer : List.Forall₂ fewer.Reads (document.keepEdges kept).edges fewer.edges.toList) :
    List.Forall₂ (fun edge stored => SameEnds (SameText fewer workflow) edge stored.2)
      fewer.edges.toList (workflow.edges.enumerate.filter fun stored => kept stored.1) := by
  have keptReads : List.Forall₂ (fun entry stored => stored.1 = ⟨entry.2⟩ ∧
      workflow.Reads entry.1 stored.2) (document.edges.zipIdx.filter fun entry => kept ⟨entry.2⟩)
      (workflow.edges.enumerate.filter fun stored => kept stored.1) := by
    refine List.rel_filter ?_ (reads_enumerate coherent reads)
    rintro entry stored ⟨sameId, _⟩
    simp [sameId]
  have fewerReads : List.Forall₂ (fun entry edge => fewer.Reads entry.1 edge)
      (document.edges.zipIdx.filter fun entry => kept ⟨entry.2⟩) fewer.edges.toList :=
    List.forall₂_map_left_iff.mp readsFewer
  exact forall₂_of_common (fun _ _ _ small large => sameEnds_of_reads small large.2)
    fewerReads keptReads

private theorem rel_edge?_idAt {workflow fewer : Workflow} {kept : EdgeId → Bool}
    (coherent : workflow.Coherent)
    (ends : List.Forall₂ (fun edge stored => SameEnds (SameText fewer workflow) edge stored.2)
      fewer.edges.toList (workflow.edges.enumerate.filter fun stored => kept stored.1))
    (edge : EdgeId) :
    Option.Rel (SameEnds (SameText fewer workflow)) (fewer.edge? edge)
      (workflow.edge? (idAt (workflow.edges.ids.filter kept) workflow.edges.size edge)) := by
  have alike := rel_getElem? ends edge.number
  have ofFewer : fewer.edge? edge = fewer.edges.toList[edge.number]? :=
    Array.getElem?_toList.symm
  rw [ofFewer, idAt, Arena.filter_ids, List.getElem?_map]
  rcases rel_cases alike with ⟨isNone, alsoNone⟩ | ⟨left, right, isLeft, isRight, sameEnds⟩
  · have beyond : workflow.edge? ⟨workflow.edges.size + edge.number⟩ = none :=
      Array.getElem?_eq_none (Nat.le_add_right _ _)
    rw [isNone, alsoNone, Option.map_none, Option.getD_none, beyond]
    exact .none
  · have stored := (List.mem_filter.mp (List.mem_of_getElem? isRight)).1
    have found : workflow.edge? right.1 = some right.2 :=
      (Arena.mem_enumerate (Nat.le_of_lt coherent.edgesFit)).mp stored
    rw [isLeft, isRight, Option.map_some, Option.getD_some, found]
    exact .some sameEnds

/-- Deleting edges leaves a workflow that the whole one embeds. -/
theorem exists_embeds_keepEdges {document : Document} {workflow fewer : Workflow}
    {kept : EdgeId → Bool} (loaded : load document = .ok workflow)
    (loadedFewer : load (document.keepEdges kept) = .ok fewer) :
    ∃ twin, Embeds (SameText fewer workflow) twin kept fewer workflow := by
  obtain ⟨base, baseLoaded, coherent, adds, reads⟩ := exists_base_of_load loaded
  obtain ⟨other, otherLoaded, _, addsFewer, readsFewer⟩ := exists_base_of_load loadedFewer
  have sameBase : base = other := Except.ok.inj (baseLoaded.symm.trans otherLoaded)
  subst sameBase
  have fits := Nat.le_of_lt adds.coherent.edgesFit
  have ends := sameEnds_keepEdges adds.coherent reads readsFewer
  refine ⟨idAt (workflow.edges.ids.filter kept) workflow.edges.size,
    { toAgree := agree_sameText coherent addsFewer adds
      injective := injective_idAt ((nodup_edge_ids adds.coherent).filter _) ?_
      edge? := ?_
      ids := ?_
      smallCoherent := addsFewer.coherent
      largeCoherent := adds.coherent }⟩
  · intro edge isKept
    obtain ⟨entry, found⟩ := (Arena.mem_ids fits).mp (List.mem_filter.mp isKept).1
    exact (Array.getElem?_eq_some_iff.mp found).choose
  · exact rel_edge?_idAt adds.coherent ends
  · refine (map_idAt addsFewer.coherent ?_ _).symm
    rw [Arena.filter_ids, List.length_map, ← ends.length_eq]
    exact Array.length_toList

end Workflow

end FlowGraph
