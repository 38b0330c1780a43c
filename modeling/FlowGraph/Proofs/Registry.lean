import FlowGraph.Workflow.Loading
import Mathlib.Data.List.Nodup
import Mathlib.Tactic.Tauto

/-!
Ids that are registered, and what becomes of entries that are looked at for their ids alone. This
is loading without tables, arenas and interners: an entry is refused exactly for an id that is
taken or for a default port that is not its own.
-/

namespace FlowGraph

/-! ### Registered ids -/

/-- The raw ids of what is registered, each port with its node. -/
structure Registry where
  triggers : List String := []
  nodes : List String := []
  ports : List (NodeId × String) := []

namespace Registry

def ids (registry : Registry) : List String := registry.triggers ++ registry.nodes

def portIds (registry : Registry) : List String := registry.ports.map Prod.snd

def takeTrigger (registry : Registry) (entry : TriggerEntry) : Registry × Except LoadError Unit :=
  if entry.id ∈ registry.ids then
    (registry, .error (.duplicateId .trigger entry.id))
  else
    ({ registry with triggers := registry.triggers ++ [entry.id] }, .ok ())

def takePorts (registry : Registry) (node : NodeId) :
    List PortEntry → Registry × Except LoadError Unit
  | [] => (registry, .ok ())
  | entry :: rest =>
      if entry.id ∈ registry.portIds then
        (registry, .error (.duplicateId .port entry.id))
      else
        ({ registry with ports := registry.ports ++ [(node, entry.id)] }).takePorts node rest

def checkDefault (entry : NodeEntry) : Except LoadError Unit :=
  match entry.defaultPort with
  | none => .ok ()
  | some id =>
      if id ∈ entry.ports.map PortEntry.id then .ok ()
      else .error (.unknownDefaultPort entry.id id)

def takeNode (registry : Registry) (entry : NodeEntry) : Registry × Except LoadError Unit :=
  if entry.id ∈ registry.ids then
    (registry, .error (.duplicateId .node entry.id))
  else
    match ({ registry with nodes := registry.nodes ++ [entry.id] }).takePorts
        ⟨registry.nodes.length⟩ entry.ports with
    | (registry, .error error) => (registry, .error error)
    | (registry, .ok ()) => (registry, checkDefault entry)

def takeAll {Entry : Type} (take : Registry → Entry → Registry × Except LoadError Unit)
    (registry : Registry) : List Entry → Registry × List LoadError
  | [] => (registry, [])
  | entry :: rest =>
      match take registry entry with
      | (registry, .ok ()) => takeAll take registry rest
      | (registry, .error error) =>
          let (registry, errors) := takeAll take registry rest
          (registry, error :: errors)

/-! ### Lists of entries -/

variable {registry : Registry}

section Lists

variable {Entry : Type} {take : Registry → Entry → Registry × Except LoadError Unit}

theorem takeAll_cons_fst (entry : Entry) (rest : List Entry) :
    (takeAll take registry (entry :: rest)).1 = (takeAll take (take registry entry).1 rest).1 := by
  rw [takeAll]
  rcases take registry entry with ⟨after, error | _⟩ <;> rfl

private theorem mem_takeAll_cons_iff {entry : Entry} {rest : List Entry} {error : LoadError} :
    error ∈ (takeAll take registry (entry :: rest)).2 ↔
      (take registry entry).2 = .error error ∨
        error ∈ (takeAll take (take registry entry).1 rest).2 := by
  rw [takeAll]
  rcases take registry entry with ⟨after, other | _⟩
  · simp [eq_comm]
  · simp

/-- The errors of a list are those of its entries, each behind the entries before it. -/
theorem mem_takeAll_iff {entries : List Entry} {error : LoadError} :
    error ∈ (takeAll take registry entries).2 ↔
      ∃ before entry after, entries = before ++ entry :: after ∧
        (take (takeAll take registry before).1 entry).2 = .error error := by
  induction entries generalizing registry with
  | nil => simp [takeAll]
  | cons first rest ih =>
      rw [mem_takeAll_cons_iff, ih]
      constructor
      · rintro (refused | ⟨before, entry, after, rfl, refused⟩)
        · exact ⟨[], first, rest, rfl, refused⟩
        · refine ⟨first :: before, entry, after, rfl, ?_⟩
          rwa [takeAll_cons_fst]
      · rintro ⟨before, entry, after, split, refused⟩
        cases before with
        | nil =>
            cases split
            exact Or.inl refused
        | cons _ before =>
            cases split
            rw [takeAll_cons_fst] at refused
            exact Or.inr ⟨before, entry, after, rfl, refused⟩

theorem takeAll_cons_eq_nil_iff {entry : Entry} {rest : List Entry} :
    (takeAll take registry (entry :: rest)).2 = [] ↔
      (take registry entry).2 = .ok () ∧ (takeAll take (take registry entry).1 rest).2 = [] := by
  rw [takeAll]
  rcases take registry entry with ⟨after, error | _⟩ <;> simp

theorem mem_ids_takeAll {idOf : Entry → String}
    (adds : ∀ registry entry id,
      id ∈ (take registry entry).1.ids ↔ id ∈ registry.ids ++ [idOf entry])
    (registry : Registry) (entries : List Entry) (id : String) :
    id ∈ (takeAll take registry entries).1.ids ↔ id ∈ registry.ids ++ entries.map idOf := by
  induction entries generalizing registry with
  | nil => rw [takeAll, List.map_nil, List.append_nil]
  | cons entry rest ih =>
      rw [takeAll_cons_fst, ih, List.mem_append, adds, List.map_cons, ← List.mem_append,
        List.append_assoc, List.singleton_append]

end Lists

private theorem nodup_append_singleton {known : List String} {id : String}
    (distinct : known.Nodup) (isNew : id ∉ known) : (known ++ [id]).Nodup := by
  rw [← List.concat_eq_append]
  exact distinct.concat isNew

theorem nodup_append_cons_iff {known rest : List String} {id : String} :
    (known ++ id :: rest).Nodup ↔ id ∉ known ∧ ((known ++ [id]) ++ rest).Nodup := by
  rw [List.append_assoc, List.singleton_append]
  constructor
  · intro whole
    refine ⟨fun present => ?_, whole⟩
    exact (List.nodup_append.mp whole).2.2 _ present _ List.mem_cons_self rfl
  · exact And.right

private theorem mem_append_singleton_of_mem {known : List String} {old id : String}
    (isKnown : old ∈ known) : id ∈ known ++ [old] ↔ id ∈ known := by
  rw [List.mem_append, List.mem_singleton, or_iff_left_iff_imp]
  rintro rfl
  exact isKnown

/-! ### Triggers -/

theorem takeTrigger_eq_error_iff {entry : TriggerEntry} {error : LoadError} :
    (registry.takeTrigger entry).2 = .error error ↔
      entry.id ∈ registry.ids ∧ error = .duplicateId .trigger entry.id := by
  rw [takeTrigger]
  split <;> simp_all [eq_comm]

theorem takeTrigger_adds (registry : Registry) (entry : TriggerEntry) :
    (registry.takeTrigger entry).1.nodes = registry.nodes ∧
      (registry.takeTrigger entry).1.ports = registry.ports ∧
      ∀ id, id ∈ (registry.takeTrigger entry).1.ids ↔ id ∈ registry.ids ++ [entry.id] := by
  rw [takeTrigger]
  split
  · rename_i isKnown
    exact ⟨rfl, rfl, fun id => (mem_append_singleton_of_mem isKnown).symm⟩
  · refine ⟨rfl, rfl, fun id => ?_⟩
    simp only [ids, List.mem_append]
    tauto

theorem takeTriggers_keeps (registry : Registry) (entries : List TriggerEntry) :
    (takeAll takeTrigger registry entries).1.nodes = registry.nodes ∧
      (takeAll takeTrigger registry entries).1.ports = registry.ports := by
  induction entries generalizing registry with
  | nil => exact ⟨rfl, rfl⟩
  | cons entry rest ih =>
      obtain ⟨sameNodes, samePorts, _⟩ := registry.takeTrigger_adds entry
      rw [takeAll_cons_fst, (ih _).1, (ih _).2]
      exact ⟨sameNodes, samePorts⟩

theorem takeTriggers_eq_nil_iff {entries : List TriggerEntry} (distinct : registry.ids.Nodup) :
    (takeAll takeTrigger registry entries).2 = [] ↔
      (registry.ids ++ entries.map TriggerEntry.id).Nodup := by
  induction entries generalizing registry with
  | nil => simpa [takeAll] using distinct
  | cons entry rest ih =>
      rw [takeAll_cons_eq_nil_iff, List.map_cons, nodup_append_cons_iff, takeTrigger]
      by_cases isKnown : entry.id ∈ registry.ids
      · simp [isKnown]
      · have moved : (registry.ids ++ [entry.id]).Perm
            ({ registry with triggers := registry.triggers ++ [entry.id] } : Registry).ids := by
          simp only [ids, List.append_assoc]
          exact List.Perm.append_left _ List.perm_append_comm
        have nowDistinct := moved.nodup_iff.mp (nodup_append_singleton distinct isKnown)
        rw [if_neg isKnown, ih nowDistinct, ← (moved.append_right _).nodup_iff]
        simp [isKnown]

theorem takeTriggers_fst {entries : List TriggerEntry}
    (accepted : (takeAll takeTrigger registry entries).2 = []) :
    (takeAll takeTrigger registry entries).1 =
      { registry with triggers := registry.triggers ++ entries.map TriggerEntry.id } := by
  induction entries generalizing registry with
  | nil => simp [takeAll]
  | cons entry rest ih =>
      obtain ⟨first, ofRest⟩ := takeAll_cons_eq_nil_iff.mp accepted
      have sameRest := ih ofRest
      rw [takeAll]
      rw [takeTrigger] at first sameRest ⊢
      split at first
      · cases first
      · rename_i isNew
        rw [if_neg isNew] at sameRest ⊢
        rw [sameRest, List.append_assoc]
        rfl

/-! ### Ports -/

/-- How the ports of a node are taken: all of them, or those before the first known id. -/
theorem takePorts_cases (registry : Registry) (node : NodeId) (entries : List PortEntry) :
    (registry.takePorts node entries =
        ({ registry with
          ports := registry.ports ++ entries.map fun entry => (node, entry.id) }, .ok ()) ∧
      ∀ front port back, entries = front ++ port :: back →
        port.id ∉ registry.portIds ++ front.map PortEntry.id) ∨
    ∃ front port back, entries = front ++ port :: back ∧
      port.id ∈ registry.portIds ++ front.map PortEntry.id ∧
      registry.takePorts node entries =
        ({ registry with
          ports := registry.ports ++ front.map fun entry => (node, entry.id) },
          .error (.duplicateId .port port.id)) := by
  induction entries generalizing registry with
  | nil => exact Or.inl ⟨by simp [takePorts], by simp⟩
  | cons entry rest ih =>
      rw [takePorts]
      split
      · rename_i isKnown
        exact Or.inr ⟨[], entry, rest, rfl, by simpa using isKnown, by simp⟩
      · rename_i isNew
        -- The first port is registered, so that its id is a known one for the rest.
        have nowIds : ({ registry with ports := registry.ports ++ [(node, entry.id)] } :
            Registry).portIds = registry.portIds ++ [entry.id] := by simp [portIds]
        rcases ih { registry with ports := registry.ports ++ [(node, entry.id)] } with
          ⟨taken, allNew⟩ | ⟨front, port, back, rfl, isKnown, taken⟩
        · refine Or.inl ⟨by rw [taken]; simp, ?_⟩
          intro front port back split
          cases front with
          | nil =>
              cases split
              simpa using isNew
          | cons first front =>
              cases split
              have portNew := allNew front port back rfl
              rw [nowIds] at portNew
              simpa using portNew
        · refine Or.inr ⟨entry :: front, port, back, rfl, ?_, by rw [taken]; simp⟩
          rw [nowIds] at isKnown
          simpa using isKnown

theorem takePorts_eq_ok {next : Registry} {node : NodeId} {entries : List PortEntry}
    (taken : registry.takePorts node entries = (next, .ok ())) :
    next = { registry with
      ports := registry.ports ++ entries.map fun entry => (node, entry.id) } := by
  rcases registry.takePorts_cases node entries with ⟨accepted, _⟩ | ⟨_, _, _, _, _, refused⟩
  · cases accepted.symm.trans taken
    rfl
  · cases refused.symm.trans taken

private theorem takePorts_eq_ok_iff {node : NodeId} {entries : List PortEntry}
    (distinct : registry.portIds.Nodup) :
    (registry.takePorts node entries).2 = .ok () ↔
      (registry.portIds ++ entries.map PortEntry.id).Nodup := by
  induction entries generalizing registry with
  | nil => simpa [takePorts] using distinct
  | cons entry rest ih =>
      rw [List.map_cons, nodup_append_cons_iff, takePorts]
      by_cases isKnown : entry.id ∈ registry.portIds
      · simp [isKnown]
      · have nowIds : ({ registry with ports := registry.ports ++ [(node, entry.id)] } :
            Registry).portIds = registry.portIds ++ [entry.id] := by simp [portIds]
        rw [if_neg isKnown, ih (nowIds ▸ nodup_append_singleton distinct isKnown), nowIds]
        simp [isKnown]

theorem checkDefault_eq_ok_iff {entry : NodeEntry} :
    checkDefault entry = .ok () ↔
      ∀ id, entry.defaultPort = some id → id ∈ entry.ports.map PortEntry.id := by
  rw [checkDefault]
  cases entry.defaultPort with
  | none => simp
  | some id => simp

theorem checkDefault_eq_error_iff {entry : NodeEntry} {error : LoadError} :
    checkDefault entry = .error error ↔ ∃ id, entry.defaultPort = some id ∧
      id ∉ entry.ports.map PortEntry.id ∧ error = .unknownDefaultPort entry.id id := by
  rw [checkDefault]
  cases entry.defaultPort with
  | none => simp
  | some id =>
      dsimp only
      split
      · rename_i isOwn
        refine iff_of_false nofun ?_
        rintro ⟨_, ⟨rfl⟩, unknown, _⟩
        exact unknown isOwn
      · rename_i unknown
        constructor
        · rintro ⟨⟩
          exact ⟨id, rfl, unknown, rfl⟩
        · rintro ⟨_, ⟨rfl⟩, _, rfl⟩
          rfl

/-! ### Nodes -/

/-- How a node with a new id is taken: up to its first port with a known id, or, if there is none,
with all its ports and as its default port is found. -/
theorem takeNode_cases {entry : NodeEntry} (isNew : entry.id ∉ registry.ids) :
    ((registry.takeNode entry).2 = checkDefault entry ∧
      (registry.takeNode entry).1.portIds = registry.portIds ++ entry.ports.map PortEntry.id ∧
      ∀ front port back, entry.ports = front ++ port :: back →
        port.id ∉ registry.portIds ++ front.map PortEntry.id) ∨
    ∃ front port back, entry.ports = front ++ port :: back ∧
      port.id ∈ registry.portIds ++ front.map PortEntry.id ∧
      (registry.takeNode entry).2 = .error (.duplicateId .port port.id) ∧
      (registry.takeNode entry).1.portIds = registry.portIds ++ front.map PortEntry.id := by
  rw [takeNode, if_neg isNew]
  rcases takePorts_cases { registry with nodes := registry.nodes ++ [entry.id] }
    ⟨registry.nodes.length⟩ entry.ports with
    ⟨taken, allNew⟩ | ⟨front, port, back, split, isKnown, taken⟩
  · refine Or.inl ⟨by rw [taken], ?_, allNew⟩
    rw [taken]
    simp [portIds, Function.comp_def]
  · refine Or.inr ⟨front, port, back, split, isKnown, by rw [taken], ?_⟩
    rw [taken]
    simp [portIds, Function.comp_def]

theorem takeNode_of_known {entry : NodeEntry} (isKnown : entry.id ∈ registry.ids) :
    registry.takeNode entry = (registry, .error (.duplicateId .node entry.id)) := by
  rw [takeNode, if_pos isKnown]

private theorem ids_takeNode {entry : NodeEntry} (isNew : entry.id ∉ registry.ids) :
    (registry.takeNode entry).1.ids = registry.ids ++ [entry.id] := by
  rw [takeNode, if_neg isNew]
  rcases takePorts_cases { registry with nodes := registry.nodes ++ [entry.id] }
    ⟨registry.nodes.length⟩ entry.ports with ⟨taken, _⟩ | ⟨_, _, _, _, _, taken⟩ <;>
  · rw [taken]
    simp [ids]

theorem mem_ids_takeNode (registry : Registry) (entry : NodeEntry) (id : String) :
    id ∈ (registry.takeNode entry).1.ids ↔ id ∈ registry.ids ++ [entry.id] := by
  by_cases isKnown : entry.id ∈ registry.ids
  · rw [takeNode_of_known isKnown]
    exact (mem_append_singleton_of_mem isKnown).symm
  · rw [ids_takeNode isKnown]

private theorem takeNode_eq_ok_iff {entry : NodeEntry} (portsDistinct : registry.portIds.Nodup) :
    (registry.takeNode entry).2 = .ok () ↔ entry.id ∉ registry.ids ∧
      (registry.portIds ++ entry.ports.map PortEntry.id).Nodup ∧
        checkDefault entry = .ok () := by
  rw [takeNode]
  by_cases isKnown : entry.id ∈ registry.ids
  · simp [isKnown]
  · have ofPorts : (({ registry with nodes := registry.nodes ++ [entry.id] } : Registry).takePorts
        ⟨registry.nodes.length⟩ entry.ports).2 = .ok () ↔
          (registry.portIds ++ entry.ports.map PortEntry.id).Nodup :=
      takePorts_eq_ok_iff portsDistinct
    rw [if_neg isKnown, ← ofPorts]
    rcases ({ registry with nodes := registry.nodes ++ [entry.id] } : Registry).takePorts
      ⟨registry.nodes.length⟩ entry.ports with ⟨after, error | _⟩ <;> simp [isKnown]

private theorem takeNode_fst {entry : NodeEntry} (accepted : (registry.takeNode entry).2 = .ok ()) :
    (registry.takeNode entry).1.ids = registry.ids ++ [entry.id] ∧
      (registry.takeNode entry).1.portIds =
        registry.portIds ++ entry.ports.map PortEntry.id := by
  have isNew : entry.id ∉ registry.ids := by
    intro isKnown
    rw [takeNode_of_known isKnown] at accepted
    cases accepted
  refine ⟨ids_takeNode isNew, ?_⟩
  rcases takeNode_cases isNew with ⟨_, portsAre, _⟩ | ⟨_, _, _, _, _, refused, _⟩
  · exact portsAre
  · cases refused.symm.trans accepted

theorem takeNodes_eq_nil_iff {entries : List NodeEntry} (distinct : registry.ids.Nodup)
    (portsDistinct : registry.portIds.Nodup) :
    (takeAll takeNode registry entries).2 = [] ↔
      (registry.ids ++ entries.map NodeEntry.id).Nodup ∧
      (registry.portIds ++ entries.flatMap fun entry => entry.ports.map PortEntry.id).Nodup ∧
        ∀ entry ∈ entries, checkDefault entry = .ok () := by
  induction entries generalizing registry with
  | nil => simpa [takeAll] using And.intro distinct portsDistinct
  | cons entry rest ih =>
      rw [takeAll_cons_eq_nil_iff, List.map_cons, nodup_append_cons_iff, List.flatMap_cons,
        List.forall_mem_cons, ← List.append_assoc]
      constructor
      · rintro ⟨first, ofRest⟩
        obtain ⟨isNew, newPorts, isDefault⟩ := (takeNode_eq_ok_iff portsDistinct).mp first
        obtain ⟨idsAre, portsAre⟩ := takeNode_fst first
        rw [ih (idsAre ▸ nodup_append_singleton distinct isNew) (portsAre ▸ newPorts), idsAre,
          portsAre] at ofRest
        exact ⟨⟨isNew, ofRest.1⟩, ofRest.2.1, isDefault, ofRest.2.2⟩
      · rintro ⟨⟨isNew, restDistinct⟩, restPorts, isDefault, restDefaults⟩
        have newPorts := (List.nodup_append.mp restPorts).1
        have first := (takeNode_eq_ok_iff portsDistinct).mpr ⟨isNew, newPorts, isDefault⟩
        obtain ⟨idsAre, portsAre⟩ := takeNode_fst first
        refine ⟨first, ?_⟩
        rw [ih (idsAre ▸ nodup_append_singleton distinct isNew) (portsAre ▸ newPorts), idsAre,
          portsAre]
        exact ⟨restDistinct, restPorts, restDefaults⟩

private theorem length_takePorts_le (registry : Registry) (node : NodeId)
    (entries : List PortEntry) : (registry.takePorts node entries).1.nodes = registry.nodes ∧
      (registry.takePorts node entries).1.ports.length ≤
        registry.ports.length + entries.length := by
  rcases registry.takePorts_cases node entries with ⟨taken, _⟩ | ⟨_, _, _, rfl, _, taken⟩ <;>
  · rw [taken]
    refine ⟨rfl, ?_⟩
    simp only [List.length_append, List.length_map, List.length_cons]
    omega

theorem length_takeNode_le (registry : Registry) (entry : NodeEntry) :
    (registry.takeNode entry).1.nodes.length ≤ registry.nodes.length + 1 ∧
      (registry.takeNode entry).1.ports.length ≤ registry.ports.length + entry.ports.length := by
  rw [takeNode]
  split
  · exact ⟨Nat.le_succ _, Nat.le_add_right _ _⟩
  · obtain ⟨sameNodes, counted⟩ := length_takePorts_le
      { registry with nodes := registry.nodes ++ [entry.id] } ⟨registry.nodes.length⟩ entry.ports
    split <;>
    · rename_i taken
      rw [taken] at sameNodes counted
      dsimp only at sameNodes counted ⊢
      exact ⟨by rw [sameNodes]; simp, counted⟩

end Registry

end FlowGraph
