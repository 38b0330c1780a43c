import FlowGraph.Proofs.RefusedEntries

/-!
The identity defects of a document and those that loading collects. An entry is left at its
first problem, so that one node counts for one error: the rest of its ports is neither looked at
nor registered, and its default port is not looked up. Of a document with defects at least one
is named, but it can take several attempts until all of them have been.
-/

namespace FlowGraph

/-! ### Defects -/

def freshAmong (known : List String) : List NodeEntry → List NodeEntry
  | [] => []
  | entry :: rest =>
      let others := freshAmong (known ++ [entry.id]) rest
      if entry.id ∈ known then others else entry :: others

namespace NodeEntry

/-- What is wrong with the ports of a node, next to the ids of earlier ports. -/
inductive HasDefect (entry : NodeEntry) (earlier : List String) : LoadError → Prop
  | port {front back : List PortEntry} {port : PortEntry}
      (listed : entry.ports = front ++ port :: back)
      (repeated : port.id ∈ earlier ++ front.map PortEntry.id) :
      entry.HasDefect earlier (.duplicateId .port port.id)
  | defaultPort {id : String} (named : entry.defaultPort = some id)
      (unknown : id ∉ entry.ports.map PortEntry.id) :
      entry.HasDefect earlier (.unknownDefaultPort entry.id id)

def DefectAtEnd (entry : NodeEntry) (earlier : List String) : Prop :=
  ∀ front port back, entry.ports = front ++ port :: back →
    port.id ∈ earlier ++ front.map PortEntry.id →
      back = [] ∧ Registry.checkDefault entry = .ok ()

end NodeEntry

def portIdsOf (entries : List NodeEntry) : List String :=
  entries.flatMap fun entry => entry.ports.map PortEntry.id

namespace Document

def freshNodes (document : Document) : List NodeEntry :=
  freshAmong (document.triggers.map TriggerEntry.id) document.nodes

/-- The identity defects of a document, as the errors that name them. -/
inductive HasDefect (document : Document) : LoadError → Prop
  | trigger {before after : List TriggerEntry} {entry : TriggerEntry}
      (listed : document.triggers = before ++ entry :: after)
      (repeated : entry.id ∈ before.map TriggerEntry.id) :
      document.HasDefect (.duplicateId .trigger entry.id)
  | node {before after : List NodeEntry} {entry : NodeEntry}
      (listed : document.nodes = before ++ entry :: after)
      (repeated : entry.id ∈ document.triggers.map TriggerEntry.id ++ before.map NodeEntry.id) :
      document.HasDefect (.duplicateId .node entry.id)
  | ofNode {before after : List NodeEntry} {entry : NodeEntry} {error : LoadError}
      (listed : document.freshNodes = before ++ entry :: after)
      (defect : entry.HasDefect (portIdsOf before) error) : document.HasDefect error

def firstDefects (document : Document) : List LoadError :=
  (Registry.takeAll Registry.takeTrigger {} document.triggers).2 ++
    (Registry.takeAll Registry.takeNode
      (Registry.takeAll Registry.takeTrigger {} document.triggers).1 document.nodes).2

end Document

private theorem portIdsOf_cons (entry : NodeEntry) (rest : List NodeEntry) :
    portIdsOf (entry :: rest) = entry.ports.map PortEntry.id ++ portIdsOf rest :=
  List.flatMap_cons

private theorem portIdsOf_append (entries others : List NodeEntry) :
    portIdsOf (entries ++ others) = portIdsOf entries ++ portIdsOf others :=
  List.flatMap_append

private theorem portIdsOf_sublist {entries others : List NodeEntry} (sub : entries.Sublist others) :
    (portIdsOf entries).Sublist (portIdsOf others) := by
  induction sub with
  | slnil => exact .slnil
  | cons entry _ ih =>
      rw [portIdsOf_cons]
      exact ih.trans (List.sublist_append_right _ _)
  | cons_cons entry _ ih =>
      rw [portIdsOf_cons, portIdsOf_cons]
      exact (List.Sublist.refl _).append ih

private theorem append_subset_append {first second others rest : List String}
    (front : first ⊆ others) (back : second ⊆ rest) : first ++ second ⊆ others ++ rest :=
  List.append_subset.mpr ⟨List.subset_append_of_subset_left _ front,
    List.subset_append_of_subset_right _ back⟩

/-! ### Fresh nodes -/

private theorem freshAmong_append (known : List String) (entries others : List NodeEntry) :
    freshAmong known (entries ++ others) = freshAmong known entries ++
      freshAmong (known ++ entries.map NodeEntry.id) others := by
  induction entries generalizing known with
  | nil => rw [List.nil_append, List.map_nil, List.append_nil, freshAmong, List.nil_append]
  | cons entry rest ih =>
      have others := ih (known ++ [entry.id])
      rw [List.append_assoc, List.singleton_append] at others
      simp only [List.cons_append, freshAmong, List.map_cons, others]
      split <;> rfl

private theorem freshAmong_sublist (known : List String) (entries : List NodeEntry) :
    (freshAmong known entries).Sublist entries := by
  induction entries generalizing known with
  | nil => exact .slnil
  | cons entry rest ih =>
      rw [freshAmong]
      split
      · exact (ih _).cons _
      · exact (ih _).cons_cons _

private theorem freshAmong_cons_of_not_mem {known : List String} {entry : NodeEntry}
    (isNew : entry.id ∉ known) (rest : List NodeEntry) :
    freshAmong known (entry :: rest) = entry :: freshAmong (known ++ [entry.id]) rest := by
  rw [freshAmong]
  exact if_neg isNew

private theorem exists_of_freshAmong_eq {known : List String}
    {entries before after : List NodeEntry}
    {entry : NodeEntry} (split : freshAmong known entries = before ++ entry :: after) :
    ∃ front back, entries = front ++ entry :: back ∧
      entry.id ∉ known ++ front.map NodeEntry.id ∧ freshAmong known front = before := by
  induction entries generalizing known before with
  | nil => simp [freshAmong] at split
  | cons first rest ih =>
      rw [freshAmong] at split
      split at split
      · rename_i isKnown
        obtain ⟨front, back, rfl, isNew, rfl⟩ := ih split
        refine ⟨first :: front, back, rfl, by simpa using isNew, ?_⟩
        rw [freshAmong]
        exact if_pos isKnown
      · rename_i firstNew
        cases before with
        | nil =>
            cases split
            exact ⟨[], rest, rfl, by simpa using firstNew, rfl⟩
        | cons _ before =>
            obtain ⟨rfl, ofRest⟩ := List.cons.inj split
            obtain ⟨front, back, rfl, isNew, rfl⟩ := ih ofRest
            refine ⟨first :: front, back, rfl, by simpa using isNew, ?_⟩
            exact freshAmong_cons_of_not_mem firstNew front

/-! ### Ports of fresh nodes -/

namespace NodeEntry

variable {entry : NodeEntry} {earlier others : List String} {error : LoadError}

theorem HasDefect.mono (defect : entry.HasDefect earlier error) (more : earlier ⊆ others) :
    entry.HasDefect others error := by
  cases defect with
  | port listed repeated =>
      exact .port listed (append_subset_append more (List.Subset.refl _) repeated)
  | defaultPort named unknown => exact .defaultPort named unknown

private theorem DefectAtEnd.anti (atEnd : entry.DefectAtEnd others) (fewer : earlier ⊆ others) :
    entry.DefectAtEnd earlier := fun front port back listed repeated =>
  atEnd front port back listed
    (append_subset_append fewer (List.Subset.refl _) repeated)

end NodeEntry

namespace Registry

variable {registry : Registry} {known : List String}

private theorem hasDefect_of_takeNode {entry : NodeEntry} {error : LoadError}
    (isNew : entry.id ∉ registry.ids) (refused : (registry.takeNode entry).2 = .error error) :
    entry.HasDefect registry.portIds error := by
  rcases takeNode_cases isNew with
    ⟨answer, _, _⟩ | ⟨front, port, back, listed, repeated, answer, _⟩
  · rw [answer, checkDefault_eq_error_iff] at refused
    obtain ⟨id, named, unknown, rfl⟩ := refused
    exact .defaultPort named unknown
  · cases answer.symm.trans refused
    exact .port listed repeated

private theorem exists_error_of_hasDefect {entry : NodeEntry} {error : LoadError}
    (isNew : entry.id ∉ registry.ids) (defect : entry.HasDefect registry.portIds error) :
    ∃ other, (registry.takeNode entry).2 = .error other := by
  rcases takeNode_cases isNew with ⟨answer, _, allNew⟩ | ⟨_, port, _, _, _, answer, _⟩
  · cases defect with
    | port listed repeated => exact absurd repeated (allNew _ _ _ listed)
    | defaultPort named unknown =>
        exact ⟨_, answer.trans (checkDefault_eq_error_iff.mpr ⟨_, named, unknown, rfl⟩)⟩
  · exact ⟨_, answer⟩

private theorem takeNode_of_hasDefect {entry : NodeEntry} {error : LoadError}
    (isNew : entry.id ∉ registry.ids) (atEnd : entry.DefectAtEnd registry.portIds)
    (defect : entry.HasDefect registry.portIds error) :
    (registry.takeNode entry).2 = .error error := by
  rcases takeNode_cases isNew with
    ⟨answer, _, allNew⟩ | ⟨front, port, back, listed, repeated, answer, _⟩
  · rw [answer]
    cases defect with
    | port listed repeated => exact absurd repeated (allNew _ _ _ listed)
    | defaultPort named unknown =>
        exact checkDefault_eq_error_iff.mpr ⟨_, named, unknown, rfl⟩
  · obtain ⟨rfl, isDefault⟩ := atEnd front port back listed repeated
    rw [answer]
    cases defect with
    | @port otherFront otherBack other otherListed otherRepeated =>
        obtain ⟨rfl, _⟩ := atEnd otherFront other otherBack otherListed otherRepeated
        -- Both ports are the last one that the node has.
        have same := (List.append_inj' (listed.symm.trans otherListed) rfl).2
        cases same
        rfl
    | defaultPort named unknown =>
        have refused := checkDefault_eq_error_iff.mpr ⟨_, named, unknown, rfl⟩
        cases isDefault.symm.trans refused

private theorem portIds_takeNode_subset {entry : NodeEntry} (isNew : entry.id ∉ registry.ids) :
    (registry.takeNode entry).1.portIds ⊆
      registry.portIds ++ entry.ports.map PortEntry.id := by
  rcases takeNode_cases isNew with ⟨_, portsAre, _⟩ | ⟨front, port, back, listed, _, _, portsAre⟩
  · rw [portsAre]
    exact List.Subset.refl _
  · rw [portsAre, listed, List.map_append]
    exact append_subset_append (List.Subset.refl _) (List.subset_append_left _ _)

private theorem subset_portIds_takeNode {entry : NodeEntry} (isNew : entry.id ∉ registry.ids)
    (atEnd : entry.DefectAtEnd registry.portIds) :
    registry.portIds ++ entry.ports.map PortEntry.id ⊆
      (registry.takeNode entry).1.portIds := by
  rcases takeNode_cases isNew with
    ⟨_, portsAre, _⟩ | ⟨front, port, back, listed, repeated, _, portsAre⟩
  · rw [portsAre]
    exact List.Subset.refl _
  · obtain ⟨rfl, _⟩ := atEnd front port back listed repeated
    rw [portsAre, listed, List.map_append, ← List.append_assoc]
    exact List.append_subset.mpr
      ⟨List.Subset.refl _, List.cons_subset.mpr ⟨repeated, List.nil_subset _⟩⟩

private theorem portIds_takeNodes_subset (sameIds : ∀ id, id ∈ registry.ids ↔ id ∈ known)
    (entries : List NodeEntry) :
    (takeAll takeNode registry entries).1.portIds ⊆
      registry.portIds ++ portIdsOf (freshAmong known entries) := by
  induction entries generalizing registry known with
  | nil => exact List.subset_append_left _ _
  | cons entry rest ih =>
      have nowSame : ∀ id, id ∈ (registry.takeNode entry).1.ids ↔ id ∈ known ++ [entry.id] := by
        intro id
        rw [mem_ids_takeNode, List.mem_append, sameIds, List.mem_append]
      rw [takeAll_cons_fst]
      refine List.Subset.trans (ih nowSame) ?_
      by_cases isKnown : entry.id ∈ known
      · rw [takeNode_of_known ((sameIds _).mpr isKnown), freshAmong, if_pos isKnown]
        exact List.Subset.refl _
      · rw [freshAmong_cons_of_not_mem isKnown, portIdsOf_cons, ← List.append_assoc]
        exact append_subset_append
          (portIds_takeNode_subset (mt (sameIds _).mp isKnown)) (List.Subset.refl _)

private theorem subset_portIds_takeNodes (sameIds : ∀ id, id ∈ registry.ids ↔ id ∈ known)
    (entries : List NodeEntry)
    (atEnd : ∀ before entry after, freshAmong known entries = before ++ entry :: after →
      entry.DefectAtEnd (registry.portIds ++ portIdsOf before)) :
    registry.portIds ++ portIdsOf (freshAmong known entries) ⊆
      (takeAll takeNode registry entries).1.portIds := by
  induction entries generalizing registry known with
  | nil =>
      rw [freshAmong, portIdsOf, List.flatMap_nil, List.append_nil]
      exact List.Subset.refl _
  | cons entry rest ih =>
      have nowSame : ∀ id, id ∈ (registry.takeNode entry).1.ids ↔ id ∈ known ++ [entry.id] := by
        intro id
        rw [mem_ids_takeNode, List.mem_append, sameIds, List.mem_append]
      rw [takeAll_cons_fst]
      by_cases isKnown : entry.id ∈ known
      · rw [freshAmong, if_pos isKnown] at atEnd ⊢
        rw [takeNode_of_known ((sameIds _).mpr isKnown)] at nowSame ⊢
        exact ih nowSame atEnd
      · have isNew := mt (sameIds _).mp isKnown
        rw [freshAmong_cons_of_not_mem isKnown] at atEnd ⊢
        have headAtEnd := atEnd [] entry _ rfl
        rw [portIdsOf, List.flatMap_nil, List.append_nil] at headAtEnd
        -- For the nodes behind, the ports of this one are earlier, and no others are registered.
        have restAtEnd : ∀ before other after,
            freshAmong (known ++ [entry.id]) rest = before ++ other :: after →
              other.DefectAtEnd ((registry.takeNode entry).1.portIds ++ portIdsOf before) := by
          intro before other after split
          have otherAtEnd := atEnd (entry :: before) other after (by rw [split]; rfl)
          rw [portIdsOf_cons, ← List.append_assoc] at otherAtEnd
          exact otherAtEnd.anti (append_subset_append (portIds_takeNode_subset isNew)
            (List.Subset.refl _))
        refine List.Subset.trans ?_ (ih nowSame restAtEnd)
        rw [portIdsOf_cons, ← List.append_assoc]
        exact append_subset_append (subset_portIds_takeNode isNew headAtEnd)
          (List.Subset.refl _)

end Registry

/-! ### Defects that are named -/

namespace Document

variable {document : Document} {error : LoadError}

def registryBehind (document : Document) (before : List NodeEntry) : Registry :=
  (Registry.takeAll Registry.takeNode
    (Registry.takeAll Registry.takeTrigger {} document.triggers).1 before).1

/-- No node has anything behind its first port with a known id. -/
def DefectsAtEnd (document : Document) : Prop :=
  ∀ before entry after, document.freshNodes = before ++ entry :: after →
    entry.DefectAtEnd (portIdsOf before)

private theorem mem_ids_takeTriggers (document : Document) (id : String) :
    id ∈ (Registry.takeAll Registry.takeTrigger {} document.triggers).1.ids ↔
      id ∈ document.triggers.map TriggerEntry.id :=
  Registry.mem_ids_takeAll (fun registry entry => (registry.takeTrigger_adds entry).2.2) {} _ id

private theorem mem_ids_registryBehind (document : Document) (before : List NodeEntry)
    (id : String) : id ∈ (document.registryBehind before).ids ↔
      id ∈ document.triggers.map TriggerEntry.id ++ before.map NodeEntry.id := by
  rw [registryBehind, Registry.mem_ids_takeAll Registry.mem_ids_takeNode, List.mem_append,
    mem_ids_takeTriggers, List.mem_append]

private theorem portIds_registryBehind_subset (document : Document) (before : List NodeEntry) :
    (document.registryBehind before).portIds ⊆
      portIdsOf (freshAmong (document.triggers.map TriggerEntry.id) before) := by
  have inside := Registry.portIds_takeNodes_subset document.mem_ids_takeTriggers before
  rwa [portIds_takeTriggers, List.nil_append] at inside

private theorem subset_portIds_registryBehind (atEnd : document.DefectsAtEnd)
    {before after : List NodeEntry} (listed : document.nodes = before ++ after) :
    portIdsOf (freshAmong (document.triggers.map TriggerEntry.id) before) ⊆
      (document.registryBehind before).portIds := by
  have inside := Registry.subset_portIds_takeNodes document.mem_ids_takeTriggers before
  rw [portIds_takeTriggers] at inside
  simp only [List.nil_append] at inside
  refine inside fun front entry back split => ?_
  refine atEnd front entry (back ++ freshAmong (document.triggers.map TriggerEntry.id ++
    before.map NodeEntry.id) after) ?_
  rw [freshNodes, listed, freshAmong_append, split, List.append_assoc, List.cons_append]

private theorem mem_firstDefects_iff : error ∈ document.firstDefects ↔
    (∃ before entry after, document.triggers = before ++ entry :: after ∧
      entry.id ∈ before.map TriggerEntry.id ∧ error = .duplicateId .trigger entry.id) ∨
    ∃ before entry after, document.nodes = before ++ entry :: after ∧
      ((document.registryBehind before).takeNode entry).2 = .error error := by
  have idsBehind : ∀ before id,
      id ∈ (Registry.takeAll Registry.takeTrigger {} before).1.ids ↔
        id ∈ before.map TriggerEntry.id :=
    Registry.mem_ids_takeAll (fun registry entry => (registry.takeTrigger_adds entry).2.2) {}
  rw [firstDefects, List.mem_append, Registry.mem_takeAll_iff, Registry.mem_takeAll_iff]
  simp only [Registry.takeTrigger_eq_error_iff, idsBehind]
  rfl

private theorem hasDefect_of_mem_firstDefects (named : error ∈ document.firstDefects) :
    document.HasDefect error := by
  rcases mem_firstDefects_iff.mp named with
    ⟨before, entry, after, listed, repeated, rfl⟩ | ⟨before, entry, after, listed, refused⟩
  · exact .trigger listed repeated
  · have idsBehind := document.mem_ids_registryBehind before entry.id
    by_cases isKnown : entry.id ∈ (document.registryBehind before).ids
    · rw [Registry.takeNode_of_known isKnown] at refused
      cases refused
      exact .node listed (idsBehind.mp isKnown)
    · have isNew := mt idsBehind.mpr isKnown
      have split := freshAmong_append (document.triggers.map TriggerEntry.id) before
        (entry :: after)
      rw [freshAmong_cons_of_not_mem isNew, ← listed] at split
      exact .ofNode split ((Registry.hasDefect_of_takeNode isKnown refused).mono
        (document.portIds_registryBehind_subset before))

private theorem mem_firstDefects_of_repeated {kind : EntryKind} {id : String}
    (isEntry : kind ≠ .port) (defect : document.HasDefect (.duplicateId kind id)) :
    .duplicateId kind id ∈ document.firstDefects := by
  rw [mem_firstDefects_iff]
  cases defect with
  | trigger listed repeated => exact Or.inl ⟨_, _, _, listed, repeated, rfl⟩
  | @node before after entry listed repeated =>
      have isKnown := (document.mem_ids_registryBehind before entry.id).mpr repeated
      exact Or.inr ⟨_, _, _, listed, by rw [Registry.takeNode_of_known isKnown]⟩
  | ofNode _ defect =>
      cases defect
      exact absurd rfl isEntry

private theorem exists_of_freshNodes_eq {before after : List NodeEntry} {entry : NodeEntry}
    (listed : document.freshNodes = before ++ entry :: after) :
    ∃ front back, document.nodes = front ++ entry :: back ∧
      entry.id ∉ (document.registryBehind front).ids ∧
      (document.registryBehind front).portIds ⊆ portIdsOf before ∧
      (document.DefectsAtEnd → portIdsOf before ⊆ (document.registryBehind front).portIds) := by
  obtain ⟨front, back, split, isNew, rfl⟩ := exists_of_freshAmong_eq listed
  exact ⟨front, back, split, mt (document.mem_ids_registryBehind front entry.id).mp isNew,
    document.portIds_registryBehind_subset front,
    fun atEnd => subset_portIds_registryBehind atEnd split⟩

private theorem exists_mem_firstDefects {before after : List NodeEntry} {entry : NodeEntry}
    (listed : document.freshNodes = before ++ entry :: after) (defect : entry.HasDefect [] error) :
    ∃ other ∈ document.firstDefects, entry.HasDefect (portIdsOf before) other := by
  obtain ⟨front, back, split, isNew, inside, _⟩ := exists_of_freshNodes_eq listed
  obtain ⟨other, refused⟩ :=
    Registry.exists_error_of_hasDefect isNew (defect.mono (List.nil_subset _))
  exact ⟨other, mem_firstDefects_iff.mpr (Or.inr ⟨front, entry, back, split, refused⟩),
    (Registry.hasDefect_of_takeNode isNew refused).mono inside⟩

private theorem mem_firstDefects_of_hasDefect (atEnd : document.DefectsAtEnd)
    (defect : document.HasDefect error) : error ∈ document.firstDefects := by
  cases defect with
  | trigger listed repeated =>
      exact mem_firstDefects_of_repeated nofun (.trigger listed repeated)
  | node listed repeated => exact mem_firstDefects_of_repeated nofun (.node listed repeated)
  | @ofNode before after entry _ listed defect =>
      obtain ⟨front, back, split, isNew, inside, covers⟩ := exists_of_freshNodes_eq listed
      have refused := Registry.takeNode_of_hasDefect isNew
        ((atEnd before entry after listed).anti inside) (defect.mono (covers atEnd))
      exact mem_firstDefects_iff.mpr (Or.inr ⟨front, entry, back, split, refused⟩)

private theorem firstDefects_ne_nil (defect : document.HasDefect error) :
    document.firstDefects ≠ [] := by
  -- All ids are distinct and all default ports known, if nothing is refused.
  intro none
  obtain ⟨ids, portIds, defaultPorts⟩ :=
    Workflow.accepted_iff.mp (List.append_eq_nil_iff.mp none)
  cases defect with
  | trigger listed repeated =>
      rw [listed, List.map_append, List.map_cons, List.append_assoc, List.cons_append] at ids
      exact (Registry.nodup_append_cons_iff.mp ids).1 repeated
  | node listed repeated =>
      rw [listed, List.map_append, List.map_cons, ← List.append_assoc] at ids
      exact (Registry.nodup_append_cons_iff.mp ids).1 repeated
  | ofNode listed defect =>
      have fresh := freshAmong_sublist (document.triggers.map TriggerEntry.id) document.nodes
      rw [← freshNodes, listed] at fresh
      cases defect with
      | port portListed repeated =>
          have distinct := (portIdsOf_sublist fresh).nodup portIds
          rw [portIdsOf_append, portIdsOf_cons, portListed, List.map_append, List.map_cons,
            List.append_assoc, ← List.append_assoc, List.cons_append] at distinct
          exact (Registry.nodup_append_cons_iff.mp distinct).1 repeated
      | defaultPort named unknown =>
          have isNode := fresh.subset (List.mem_append_right _ List.mem_cons_self)
          exact unknown (defaultPorts _ isNode _ named)

end Document

/-! ### Errors that are collected -/

/-- A document that fits, whichever of its entries are refused. -/
structure Document.WithinLimits (document : Document) : Prop where
  triggersFit : document.triggers.length ≤ 255
  nodesFit : document.nodes.length ≤ 65535
  portsFit : (document.nodes.flatMap NodeEntry.ports).length ≤ 65535
  edgesFit : document.edges.length < 2 ^ 32
  identsFit : FitsAnyhow (2 ^ 32) (2 ^ 64) document.identTexts
  namesFit : FitsAnyhow (2 ^ 16) (2 ^ 32) document.nameTexts

namespace Workflow

variable {document : Document}

/-- Within the limits, entries are refused for identity defects alone, and all refusals are
collected. -/
theorem load_within_limits (within : document.WithinLimits) :
    (document.firstDefects = [] ∧ ∃ workflow, load document = .ok workflow) ∨
      (document.firstDefects ≠ [] ∧
        load document = .error (.rejected document.firstDefects)) := by
  obtain ⟨start, known, base, reaches⟩ := exists_reaches within.identsFit within.edgesFit
  refine reaches.load_eq ?_
  obtain ⟨idents, identsLawful, idsInside, identsFit⟩ := Interner.exists_large within.identsFit
  obtain ⟨names, namesLawful, namesInside, namesFit⟩ := Interner.exists_large within.namesFit
  let large : Workflow := { empty with idents := idents, names := names }
  have largeIdents : large.idents.Lawful := identsLawful
  obtain ⟨_, registers, _⟩ := took_ofEntrypoint reaches.entrypoint
  have amongStart : start.TextsAmong large.idents.strings.toList large.names.strings.toList := by
    obtain ⟨ids, labels⟩ := textsAmong_ofEntrypoint reaches.entrypoint
    exact ⟨List.Subset.trans ids idsInside, List.Subset.trans labels namesInside⟩
  have triggerIds := List.Subset.trans document.triggerIds_subset idsInside
  have triggerNames := List.Subset.trans document.triggerNames_subset namesInside
  obtain ⟨registersKnown, sameTriggers⟩ := triggerLaws.follows_addAll largeIdents namesLawful
    identsFit namesFit registers amongStart triggerIds triggerNames
    (document.roomForAll_triggers within.triggersFit)
  have amongKnown := triggerLaws.among_addAll amongStart triggerIds triggerNames
  obtain ⟨_, sameNodes⟩ := nodeLaws.follows_addAll largeIdents namesLawful identsFit namesFit
    registersKnown amongKnown (List.Subset.trans document.nodeIds_subset idsInside)
    (List.Subset.trans document.nodeNames_subset namesInside)
    (document.roomForAll_nodes within.nodesFit within.portsFit)
  rw [Document.firstDefects, ← reaches.triggers, sameTriggers, sameNodes]

end Workflow

/-- Within the limits, loading fails exactly if there is a defect, and collects one error for
every entry that it refuses. Only defects are named. All repeated ids of triggers and of nodes
are, and each node that is wrong in itself is named with a defect of it. All defects are, if no
node has anything behind its first port with a known id. -/
theorem load_collects_defects {document : Document} (within : document.WithinLimits) :
    ∃ errors,
      ((errors = [] ∧ ∃ workflow, Workflow.load document = .ok workflow) ∨
        (errors ≠ [] ∧ Workflow.load document = .error (.rejected errors))) ∧
      (∀ error ∈ errors, document.HasDefect error) ∧
      (∀ error, document.HasDefect error → errors ≠ []) ∧
      (∀ kind id, kind ≠ .port → document.HasDefect (.duplicateId kind id) →
        .duplicateId kind id ∈ errors) ∧
      (∀ before entry after error, document.freshNodes = before ++ entry :: after →
        entry.HasDefect [] error → ∃ other ∈ errors, entry.HasDefect (portIdsOf before) other) ∧
      (document.DefectsAtEnd → ∀ error, document.HasDefect error → error ∈ errors) :=
  ⟨document.firstDefects, Workflow.load_within_limits within,
    fun _ => Document.hasDefect_of_mem_firstDefects,
    fun _ => Document.firstDefects_ne_nil,
    fun _ _ => Document.mem_firstDefects_of_repeated,
    fun _ _ _ _ => Document.exists_mem_firstDefects,
    fun atEnd _ => Document.mem_firstDefects_of_hasDefect atEnd⟩

def defectsApart : Document :=
  { triggers := [{ id := "t" }, { id := "t" }]
    nodes :=
      [{ id := "a", ports := [{ id := "p", name := "on" }] },
        { id := "b", ports := [{ id := "p", name := "on" }] },
        { id := "t" },
        { id := "c", defaultPort := some "p" }] }

/-- All four defects are named. -/
theorem load_collects_defects_apart : defectsApart.WithinLimits ∧ defectsApart.DefectsAtEnd ∧
    ∃ errors, Workflow.load defectsApart = .error (.rejected errors) ∧
      .duplicateId .trigger "t" ∈ errors ∧ .duplicateId .port "p" ∈ errors ∧
      .duplicateId .node "t" ∈ errors ∧ .unknownDefaultPort "c" "p" ∈ errors := by
  have within : defectsApart.WithinLimits :=
    ⟨by decide, by decide, by decide, by decide, ⟨by decide +kernel, by decide +kernel⟩,
      ⟨by decide +kernel, by decide +kernel⟩⟩
  have atEnd : defectsApart.DefectsAtEnd := by
    intro before entry after listed front port back split _
    have small : ∀ entry ∈ defectsApart.nodes, entry.ports.length ≤ 1 ∧
        (entry.ports = [] ∨ entry.defaultPort = none) := by
      decide +kernel
    have isNode : entry ∈ defectsApart.nodes := by
      refine (freshAmong_sublist (defectsApart.triggers.map TriggerEntry.id) _).subset ?_
      rw [← Document.freshNodes, listed]
      exact List.mem_append_right _ List.mem_cons_self
    obtain ⟨onlyOne, noPort | noDefault⟩ := small entry isNode
    · simp [noPort] at split
    · rw [split, List.length_append, List.length_cons] at onlyOne
      refine ⟨List.length_eq_zero_iff.mp (by omega), ?_⟩
      rw [Registry.checkDefault, noDefault]
  have triggers : defectsApart.triggers = [{ id := "t" }] ++ { id := "t" } :: [] := rfl
  have nodes : defectsApart.nodes = [_, _] ++ { id := "t" } :: [_] := rfl
  have behindFirst : defectsApart.freshNodes =
      [_] ++ { id := "b", ports := [{ id := "p", name := "on" }] } :: [_] := rfl
  have behindSecond : defectsApart.freshNodes =
      [_, _] ++ { id := "c", defaultPort := some "p" } :: [] := rfl
  have repeatedPort : NodeEntry.HasDefect { id := "b", ports := [{ id := "p", name := "on" }] }
      ["p"] (.duplicateId .port "p") :=
    @NodeEntry.HasDefect.port _ _ [] [] { id := "p", name := "on" } rfl (by decide)
  obtain ⟨errors, outcome, _, isNamed, _, _, allNamed⟩ := load_collects_defects within
  have repeatedTrigger := allNamed atEnd _ (.trigger triggers (by decide))
  refine ⟨within, atEnd, errors, ?_, repeatedTrigger,
    allNamed atEnd _ (.ofNode behindFirst repeatedPort),
    allNamed atEnd _ (.node nodes (by decide)),
    allNamed atEnd _ (.ofNode behindSecond (.defaultPort rfl (by decide)))⟩
  rcases outcome with ⟨rfl, _⟩ | ⟨_, rejected⟩
  · exact absurd repeatedTrigger List.not_mem_nil
  · exact rejected

def defectsBehind : Document :=
  { nodes :=
      [{ id := "n"
         ports :=
           [{ id := "p", name := "on" }, { id := "p", name := "off" }, { id := "q", name := "up" }]
         defaultPort := some "x" },
        { id := "m", ports := [{ id := "q", name := "up" }] }] }

/-- What comes behind the repeated port is not named: the wrong default port, and the other port
that is repeated, since it was never registered. -/
theorem load_overlooks_defects_behind : defectsBehind.WithinLimits ∧
    Workflow.load defectsBehind = .error (.rejected [.duplicateId .port "p"]) ∧
    defectsBehind.HasDefect (.unknownDefaultPort "n" "x") ∧
    .unknownDefaultPort "n" "x" ∉ [LoadError.duplicateId .port "p"] ∧
    defectsBehind.HasDefect (.duplicateId .port "q") ∧
    .duplicateId .port "q" ∉ [LoadError.duplicateId .port "p"] := by
  have within : defectsBehind.WithinLimits :=
    ⟨by decide, by decide, by decide, by decide, ⟨by decide +kernel, by decide +kernel⟩,
      ⟨by decide +kernel, by decide +kernel⟩⟩
  have first : defectsBehind.freshNodes = [] ++
      { id := "n"
        ports :=
          [{ id := "p", name := "on" }, { id := "p", name := "off" }, { id := "q", name := "up" }]
        defaultPort := some "x" } :: [_] := rfl
  have second : defectsBehind.freshNodes =
      [_] ++ { id := "m", ports := [{ id := "q", name := "up" }] } :: [] := rfl
  have repeatedPort : NodeEntry.HasDefect { id := "m", ports := [{ id := "q", name := "up" }] }
      ["p", "p", "q"] (.duplicateId .port "q") :=
    @NodeEntry.HasDefect.port _ _ [] [] { id := "q", name := "up" } rfl (by decide)
  refine ⟨within, ?_, .ofNode first (.defaultPort rfl (by decide)), by decide,
    .ofNode second repeatedPort, by decide⟩
  have named : defectsBehind.firstDefects = [.duplicateId .port "p"] := by decide +kernel
  rcases Workflow.load_within_limits within with ⟨none, _⟩ | ⟨_, rejected⟩
  · cases named.symm.trans none
  · rwa [named] at rejected

end FlowGraph
