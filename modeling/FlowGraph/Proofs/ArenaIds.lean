import FlowGraph.Workflow.Id
import Mathlib.Data.List.Nodup

/-!
Arenas that hold no more values than there are ids. Such an arena gives every value
an id of its own, and the value stays there whatever is stored behind it.
-/

namespace FlowGraph

class LawfulArenaId (Id : Type) [ArenaId Id] : Prop where
  number_ofNumber : ∀ number, ArenaId.number (ArenaId.ofNumber number : Id) = number
  ofNumber_number : ∀ id : Id, ArenaId.ofNumber (ArenaId.number id) = id

instance : LawfulArenaId NodeId := ⟨fun _ => rfl, fun _ => rfl⟩

instance : LawfulArenaId PortId := ⟨fun _ => rfl, fun _ => rfl⟩

instance : LawfulArenaId TriggerId := ⟨fun _ => rfl, fun _ => rfl⟩

instance : LawfulArenaId EdgeId := ⟨fun _ => rfl, fun _ => rfl⟩

open LawfulArenaId

variable {Id Value : Type} [ArenaId Id] [LawfulArenaId Id]

theorem ArenaId.number_ofPosition {position : Nat} (fits : position < ArenaId.count Id) :
    ArenaId.number (ArenaId.ofPosition Id position) = position := by
  rw [ArenaId.ofPosition, number_ofNumber, Nat.mod_eq_of_lt fits]

theorem ArenaId.eq_of_number_eq {left right : Id}
    (sameNumber : ArenaId.number left = ArenaId.number right) : left = right := by
  rw [← ofNumber_number left, sameNumber, ofNumber_number]

namespace Arena

/-! ### Storing values -/

omit [LawfulArenaId Id] in
theorem get?_push_of_get? {arena : Arena Id Value} {id : Id} {value : Value} (new : Value)
    (found : arena.get? id = some value) : (arena.push new).get? id = some value := by
  have bound := (Array.getElem?_eq_some_iff.mp found).choose
  rw [get?, push, Array.getElem?_push_lt bound, ← Array.getElem?_eq_getElem bound]
  exact found

theorem get?_push_nextId {arena : Arena Id Value} (new : Value)
    (fits : arena.size < ArenaId.count Id) : (arena.push new).get? arena.nextId = some new := by
  rw [get?, nextId, ArenaId.number_ofPosition fits]
  exact Array.getElem?_push_size

theorem get?_push_cases {arena : Arena Id Value} {id : Id} {new value : Value}
    (fits : arena.size < ArenaId.count Id) (found : (arena.push new).get? id = some value) :
    arena.get? id = some value ∨ id = arena.nextId ∧ value = new := by
  rw [get?, push, Array.getElem?_push] at found
  by_cases last : ArenaId.number id = arena.values.size
  · rw [if_pos last, Option.some.injEq] at found
    refine Or.inr ⟨ArenaId.eq_of_number_eq ?_, found.symm⟩
    rw [nextId, ArenaId.number_ofPosition fits]
    exact last
  · rw [if_neg last] at found
    exact Or.inl found

theorem get?_set_cases {arena : Arena Id Value} {id other : Id} {new value : Value}
    (found : (arena.set id new).get? other = some value) :
    other = id ∧ value = new ∨ arena.get? other = some value := by
  rw [get?, set, Array.getElem?_setIfInBounds] at found
  by_cases same : ArenaId.number id = ArenaId.number other
  · rw [if_pos same] at found
    split at found
    · cases found
      exact Or.inl ⟨(ArenaId.eq_of_number_eq same).symm, rfl⟩
    · cases found
  · rw [if_neg same] at found
    exact Or.inr found

omit [LawfulArenaId Id] in
theorem get?_set_self {arena : Arena Id Value} {id : Id} {value : Value} (new : Value)
    (found : arena.get? id = some value) : (arena.set id new).get? id = some new := by
  have bound := (Array.getElem?_eq_some_iff.mp found).choose
  rw [get?, set, Array.getElem?_setIfInBounds, if_pos rfl, if_pos bound]

theorem get?_set_of_ne {arena : Arena Id Value} {id other : Id} (new : Value)
    (different : other ≠ id) : (arena.set id new).get? other = arena.get? other := by
  have numbers : ArenaId.number id ≠ ArenaId.number other :=
    fun same => different (ArenaId.eq_of_number_eq same).symm
  rw [get?, set, Array.getElem?_setIfInBounds, if_neg numbers, get?]

omit [LawfulArenaId Id] in
theorem size_set (arena : Arena Id Value) (id : Id) (value : Value) :
    (arena.set id value).size = arena.size :=
  Array.size_setIfInBounds

omit [LawfulArenaId Id] in
theorem map_toList_set {arena : Arena Id Value} {id : Id} {old new : Value} {View : Type}
    {view : Value → View} (stored : arena.get? id = some old) (alike : view new = view old) :
    (arena.set id new).toList.map view = arena.toList.map view := by
  rw [toList, set, Array.toList_setIfInBounds, List.map_set, alike, toList]
  apply List.ext_getElem?
  intro place
  rw [List.getElem?_set]
  split
  · rename_i same
    rw [get?, same, ← Array.getElem?_toList] at stored
    have bound := (List.getElem?_eq_some_iff.mp stored).choose
    rw [same, List.length_map, if_pos bound, List.getElem?_map, stored, Option.map_some]
  · rfl

theorem set_push_nextId {arena : Arena Id Value} (old new : Value)
    (fits : arena.size < ArenaId.count Id) :
    (arena.push old).set arena.nextId new = arena.push new := by
  have replaced : (arena.values.push old).setIfInBounds arena.values.size new =
      arena.values.push new := by grind
  rw [set, nextId, ArenaId.number_ofPosition fits]
  exact congrArg Arena.mk replaced

omit [ArenaId Id] [LawfulArenaId Id] in
theorem size_push (arena : Arena Id Value) (value : Value) :
    (arena.push value).size = arena.size + 1 :=
  Array.size_push value

/-! ### All ids -/

theorem nodup_ids {arena : Arena Id Value} (fits : arena.size ≤ ArenaId.count Id) :
    arena.ids.Nodup := by
  refine List.Nodup.map_on ?_ List.nodup_range
  intro left inLeft right inRight same
  have leftFits := Nat.lt_of_lt_of_le (List.mem_range.mp inLeft) fits
  have rightFits := Nat.lt_of_lt_of_le (List.mem_range.mp inRight) fits
  rw [← ArenaId.number_ofPosition leftFits, same, ArenaId.number_ofPosition rightFits]

theorem pairwise_ids {arena : Arena Id Value} (fits : arena.size ≤ ArenaId.count Id) :
    arena.ids.Pairwise fun left right => ArenaId.number left < ArenaId.number right := by
  refine List.pairwise_map.mpr (List.pairwise_lt_range.imp_of_mem ?_)
  intro left right inLeft inRight before
  have leftFits := Nat.lt_of_lt_of_le (List.mem_range.mp inLeft) fits
  have rightFits := Nat.lt_of_lt_of_le (List.mem_range.mp inRight) fits
  rw [ArenaId.number_ofPosition leftFits, ArenaId.number_ofPosition rightFits]
  exact before

omit [LawfulArenaId Id] in
/-- The ids are the numbers from zero on: no position wraps around. -/
theorem ids_eq {arena : Arena Id Value} (fits : arena.size ≤ ArenaId.count Id) :
    arena.ids = (List.range arena.size).map ArenaId.ofNumber := by
  apply List.map_congr_left
  intro position inRange
  have bound := Nat.lt_of_lt_of_le (List.mem_range.mp inRange) fits
  rw [ArenaId.ofPosition, Nat.mod_eq_of_lt bound]

omit [LawfulArenaId Id] in
theorem length_ids (arena : Arena Id Value) : arena.ids.length = arena.size := by
  rw [ids, List.length_map, List.length_range]

omit [LawfulArenaId Id] in
theorem map_fst_enumerate (arena : Arena Id Value) : arena.enumerate.map Prod.fst = arena.ids := by
  rw [enumerate, List.map_fst_zip]
  rw [length_ids]
  exact Nat.le_of_eq Array.length_toList.symm

omit [LawfulArenaId Id] in
theorem filter_ids (arena : Arena Id Value) (kept : Id → Bool) :
    arena.ids.filter kept = (arena.enumerate.filter fun stored => kept stored.1).map Prod.fst := by
  rw [← map_fst_enumerate, List.filter_map]
  rfl

omit [LawfulArenaId Id] in
theorem length_enumerate (arena : Arena Id Value) : arena.enumerate.length = arena.size := by
  rw [← length_ids, ← map_fst_enumerate, List.length_map]

omit [LawfulArenaId Id] in
theorem getElem_enumerate {arena : Arena Id Value} {position : Nat}
    (bound : position < arena.enumerate.length) (inValues : position < arena.values.size) :
    arena.enumerate[position] = (ArenaId.ofPosition Id position, arena.values[position]) := by
  simp only [enumerate, ids, toList, List.getElem_zip, List.getElem_map, List.getElem_range,
    Array.getElem_toList]

theorem mem_enumerate {arena : Arena Id Value} (fits : arena.size ≤ ArenaId.count Id)
    {id : Id} {value : Value} :
    (id, value) ∈ arena.enumerate ↔ arena.get? id = some value := by
  rw [get?, Array.getElem?_eq_some_iff, List.mem_iff_getElem]
  have sameLength : arena.enumerate.length = arena.values.size := length_enumerate arena
  constructor
  · intro present
    obtain ⟨position, bound, found⟩ := present
    have inValues : position < arena.values.size := sameLength ▸ bound
    rw [getElem_enumerate bound inValues] at found
    cases found
    have number : ArenaId.number (ArenaId.ofPosition Id position) = position :=
      ArenaId.number_ofPosition (Nat.lt_of_lt_of_le inValues fits)
    exact ⟨number.symm ▸ inValues, by simp only [number]⟩
  · intro present
    obtain ⟨bound, found⟩ := present
    have inEnumerate : ArenaId.number id < arena.enumerate.length := sameLength.symm ▸ bound
    refine ⟨ArenaId.number id, inEnumerate, ?_⟩
    rw [getElem_enumerate inEnumerate bound, found]
    congr 1
    apply ArenaId.eq_of_number_eq
    rw [ArenaId.number_ofPosition (Nat.lt_of_lt_of_le bound fits)]

theorem mem_toList {arena : Arena Id Value} {value : Value} :
    value ∈ arena.toList ↔ ∃ id, arena.get? id = some value := by
  rw [toList, List.mem_iff_getElem?]
  constructor
  · rintro ⟨place, found⟩
    rw [Array.getElem?_toList] at found
    exact ⟨ArenaId.ofNumber place, by rwa [get?, LawfulArenaId.number_ofNumber]⟩
  · rintro ⟨id, found⟩
    exact ⟨ArenaId.number id, by rwa [Array.getElem?_toList]⟩

theorem mem_ids {arena : Arena Id Value} (fits : arena.size ≤ ArenaId.count Id) {id : Id} :
    id ∈ arena.ids ↔ ∃ value, arena.get? id = some value := by
  rw [← map_fst_enumerate, List.mem_map]
  constructor
  · intro present
    obtain ⟨⟨other, value⟩, inEnumerate, rfl⟩ := present
    exact ⟨value, (mem_enumerate fits).mp inEnumerate⟩
  · intro present
    obtain ⟨value, found⟩ := present
    exact ⟨(id, value), (mem_enumerate fits).mpr found, rfl⟩

end Arena

end FlowGraph
