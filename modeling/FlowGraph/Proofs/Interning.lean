import FlowGraph.Interner
import Mathlib.Algebra.GroupWithZero.Nat
import Mathlib.Algebra.Order.BigOperators.Group.List
import Mathlib.Algebra.Order.Group.Nat
import Mathlib.Data.List.Nodup

/-!
Interners as lists of strings. The strings are cut out of one text, and storing another
one leaves every cut as it is. In a lawful interner the table agrees with them, so every
string has one key, and the key keeps its string whatever is stored later.
-/

namespace FlowGraph.Interner

variable {keyLimit offsetLimit : Nat} {interner next : Interner keyLimit offsetLimit}

def strings (interner : Interner keyLimit offsetLimit) : Array String :=
  (Array.range interner.size).map interner.cut

@[simp] theorem size_strings (interner : Interner keyLimit offsetLimit) :
    interner.strings.size = interner.size := by
  rw [strings, Array.size_map, Array.size_range]

theorem getElem?_strings (interner : Interner keyLimit offsetLimit) (key : Nat) :
    interner.strings[key]? =
      if key < interner.size then some (interner.cut key) else none := by
  rw [strings, Array.getElem?_map, Array.getElem?_range]
  by_cases known : key < interner.size
  · rw [if_pos known, if_pos known, Option.map_some]
  · rw [if_neg known, if_neg known, Option.map_none]

theorem toOption_get (interner : Interner keyLimit offsetLimit) (key : Nat) :
    (interner.get key).toOption = interner.strings[key]? := by
  rw [getElem?_strings, get]
  by_cases known : key < interner.size
  · rw [if_pos known, if_pos known]
    rfl
  · rw [if_neg known, if_neg known]
    rfl

/-! ### The text and its cuts -/

private theorem byteIdx_startOf (interner : Interner keyLimit offsetLimit) (key : Nat) :
    (interner.startOf key).offset.byteIdx = interner.starts[key]?.getD interner.byteSize := by
  unfold startOf
  split
  · rename_i known
    rw [Array.getElem?_eq_getElem known]
    rfl
  · rename_i unknown
    rw [Array.getElem?_eq_none (Nat.le_of_not_lt unknown)]
    rfl

private theorem byteIdx_startOf_le (interner : Interner keyLimit offsetLimit) (key : Nat) :
    (interner.startOf key).offset.byteIdx ≤ interner.text.toByteArray.size :=
  (interner.startOf key).isValid.le_rawEndPos

private theorem extract_append_of_le {front back : ByteArray} {start stop : Nat}
    (inFront : stop ≤ front.size) :
    (front ++ back).extract start stop = front.extract start stop := by
  have nothing : back.extract (start - front.size) (stop - front.size) = ByteArray.empty := by
    rw [ByteArray.extract_eq_empty_iff]
    omega
  rw [ByteArray.extract_append, nothing, ByteArray.append_empty]

private theorem byteIdx_startOf_push (string : String) {key : Nat} (known : key ≤ interner.size) :
    ((interner.push string).startOf key).offset.byteIdx =
      (interner.startOf key).offset.byteIdx := by
  rw [byteIdx_startOf, byteIdx_startOf, push]
  dsimp only
  rw [Array.getElem?_push]
  by_cases isLast : key = interner.starts.size
  · rw [if_pos isLast, isLast, Array.getElem?_eq_none (Nat.le_refl _)]
    rfl
  · have bound : key < interner.starts.size := Nat.lt_of_le_of_ne known isLast
    rw [if_neg isLast, Array.getElem?_eq_getElem bound]
    rfl

private theorem cut_push_of_lt (string : String) {key : Nat} (known : key < interner.size) :
    (interner.push string).cut key = interner.cut key := by
  rw [cut, cut, ← String.toByteArray_inj, String.toByteArray_extract, String.toByteArray_extract,
    byteIdx_startOf_push string (Nat.le_of_lt known), byteIdx_startOf_push string known]
  change (interner.text ++ string).toByteArray.extract _ _ = _
  rw [String.toByteArray_append]
  exact extract_append_of_le (interner.byteIdx_startOf_le _)

private theorem cut_push_size (interner : Interner keyLimit offsetLimit) (string : String) :
    (interner.push string).cut interner.size = string := by
  have start : ((interner.push string).startOf interner.size).offset.byteIdx =
      interner.text.toByteArray.size := by
    rw [byteIdx_startOf_push string (Nat.le_refl _), byteIdx_startOf, size,
      Array.getElem?_eq_none (Nat.le_refl _)]
    rfl
  have stop : ((interner.push string).startOf (interner.size + 1)).offset.byteIdx =
      interner.text.toByteArray.size + string.toByteArray.size := by
    rw [byteIdx_startOf, Array.getElem?_eq_none (by simp [push, size]), byteSize]
    change (interner.text ++ string).utf8ByteSize = _
    rw [String.utf8ByteSize_append]
    rfl
  rw [cut, ← String.toByteArray_inj, String.toByteArray_extract, start, stop]
  change (interner.text ++ string).toByteArray.extract _ _ = _
  rw [String.toByteArray_append]
  exact ByteArray.extract_append_eq_right rfl rfl

@[simp] theorem size_push (interner : Interner keyLimit offsetLimit) (string : String) :
    (interner.push string).size = interner.size + 1 :=
  Array.size_push _

@[simp] theorem byteSize_push (interner : Interner keyLimit offsetLimit) (string : String) :
    (interner.push string).byteSize = interner.byteSize + string.utf8ByteSize :=
  String.utf8ByteSize_append

private theorem hash_push (interner : Interner keyLimit offsetLimit) (string : String) :
    (interner.push string).hash = interner.hash :=
  rfl

@[simp] theorem strings_push (interner : Interner keyLimit offsetLimit) (string : String) :
    (interner.push string).strings = interner.strings.push string := by
  apply Array.ext_getElem?
  intro key
  rw [Array.getElem?_push, size_strings, getElem?_strings, getElem?_strings, size_push]
  by_cases isLast : key = interner.size
  · rw [if_pos isLast, isLast, if_pos (Nat.lt_succ_self _), cut_push_size]
  · rw [if_neg isLast]
    by_cases known : key < interner.size
    · rw [if_pos known, if_pos (Nat.lt_succ_of_lt known), cut_push_of_lt string known]
    · rw [if_neg known, if_neg (by omega)]

/-! ### Lawful interners -/

structure Lawful (interner : Interner keyLimit offsetLimit) : Prop where
  /-- A key is kept under the hash of its string, also when the table is rebuilt. -/
  keys : ∀ hash key, key ∈ interner.keysAt hash ↔
    ∃ string, interner.strings[key]? = some string ∧ interner.hash string = hash
  nodup : interner.strings.toList.Nodup
  byteSize : interner.byteSize = (interner.strings.toList.map String.utf8ByteSize).sum
  fits : interner.size ≤ keyLimit

theorem Lawful.key_eq (lawful : interner.Lawful) {left right : Nat} {string : String}
    (ofLeft : interner.strings[left]? = some string)
    (ofRight : interner.strings[right]? = some string) : left = right := by
  rw [← Array.getElem?_toList] at ofLeft ofRight
  have bound := (List.getElem?_eq_some_iff.mp ofLeft).choose
  exact (List.getElem?_inj bound lawful.nodup).mp (ofLeft.trans ofRight.symm)

/-- The table finds every string under its key, and nothing else. -/
theorem Lawful.lookup (lawful : interner.Lawful) (string : String) (key : Nat) :
    interner.lookup? string = some key ↔ interner.strings[key]? = some string := by
  have stands : ∀ other, ((interner.get other).toOption == some string) = true ↔
      interner.strings[other]? = some string := fun other => by
    rw [toOption_get, beq_iff_eq]
  have sound : ∀ other, interner.lookup? string = some other →
      interner.strings[other]? = some string := fun other found =>
    (stands other).mp (List.find?_some (p := fun key =>
      (interner.get key).toOption == some string) found)
  refine ⟨sound key, fun stored => ?_⟩
  have listed : key ∈ interner.keysAt (interner.hash string) :=
    (lawful.keys _ key).mpr ⟨string, stored, rfl⟩
  have finds : (interner.lookup? string).isSome :=
    List.find?_isSome.mpr ⟨key, listed, (stands key).mpr stored⟩
  obtain ⟨other, found⟩ := Option.isSome_iff_exists.mp finds
  rw [found, lawful.key_eq (sound other found) stored]

theorem Lawful.lookup?_eq_none_iff (lawful : interner.Lawful) {string : String} :
    interner.lookup? string = none ↔ string ∉ interner.strings.toList := by
  rw [List.mem_iff_getElem?, ← not_iff_not, not_not, ← Ne, Option.ne_none_iff_exists']
  simp only [lawful.lookup, Array.getElem?_toList]

theorem Lawful.mem_of_lookup? (lawful : interner.Lawful) {string : String} {key : Nat}
    (found : interner.lookup? string = some key) : string ∈ interner.strings.toList :=
  Array.mem_toList_iff.mpr (Array.mem_of_getElem? ((lawful.lookup string key).mp found))

theorem strings_ofHash (hash : String → Nat) :
    (ofHash hash : Interner keyLimit offsetLimit).strings = #[] :=
  Array.eq_empty_of_size_eq_zero (size_strings _)

theorem lawful_ofHash (hash : String → Nat) :
    (ofHash hash : Interner keyLimit offsetLimit).Lawful where
  keys := by
    intro other key
    rw [strings_ofHash]
    simp [keysAt, ofHash]
  nodup := by
    rw [strings_ofHash]
    exact List.nodup_nil
  byteSize := by
    rw [strings_ofHash]
    rfl
  fits := Nat.zero_le _

theorem toList_strings_empty : (empty : Interner keyLimit offsetLimit).strings.toList = [] := by
  rw [empty, strings_ofHash]

theorem lawful_empty : (empty : Interner keyLimit offsetLimit).Lawful := lawful_ofHash _

def Grown (before after : Interner keyLimit offsetLimit) : Prop :=
  ∀ (key : Nat) (string : String), before.strings[key]? = some string →
    after.strings[key]? = some string

theorem Grown.refl (interner : Interner keyLimit offsetLimit) : Grown interner interner :=
  fun _ _ found => found

theorem Grown.trans {first second third : Interner keyLimit offsetLimit}
    (before : Grown first second) (after : Grown second third) : Grown first third :=
  fun key string found => after key string (before key string found)

theorem Grown.size_le {before after : Interner keyLimit offsetLimit} (grown : Grown before after) :
    before.size ≤ after.size := by
  by_contra larger
  have bound : after.size < before.strings.size := by
    rw [size_strings]
    exact Nat.lt_of_not_le larger
  have found := grown after.size _ (Array.getElem?_eq_getElem bound)
  have impossible := (Array.getElem?_eq_some_iff.mp found).choose
  rw [size_strings] at impossible
  exact absurd impossible (Nat.lt_irrefl _)

/-! ### Storing a string -/

private theorem keysAt_push (interner : Interner keyLimit offsetLimit) (string : String)
    (hash : Nat) : (interner.push string).keysAt hash =
      if interner.hash string = hash then interner.size :: interner.keysAt hash
      else interner.keysAt hash := by
  rw [keysAt, push, Std.TreeMap.getD_insert]
  simp only [Std.compare_eq_iff_eq]
  by_cases same : interner.hash string = hash
  · rw [if_pos same, if_pos same, same]
  · rw [if_neg same, if_neg same]
    rfl

private theorem grown_push (interner : Interner keyLimit offsetLimit) (string : String) :
    Grown interner (interner.push string) := by
  intro key other found
  have bound := (Array.getElem?_eq_some_iff.mp found).choose
  rw [strings_push, Array.getElem?_push_lt bound, ← found, Array.getElem?_eq_getElem bound]

private theorem lawful_push (lawful : interner.Lawful) {string : String}
    (isNew : interner.lookup? string = none) (room : interner.size < keyLimit) :
    (interner.push string).Lawful where
  keys := by
    intro hash key
    have old := lawful.keys hash key
    rw [keysAt_push, hash_push, strings_push, Array.getElem?_push, size_strings]
    by_cases isLast : key = interner.size
    · -- The next key is not in the table yet.
      subst isLast
      rw [getElem?_strings, if_neg (Nat.lt_irrefl _)] at old
      by_cases same : interner.hash string = hash
      · simp [same]
      · simp [same, old]
    · rw [if_neg isLast, ← old]
      by_cases same : interner.hash string = hash
      · rw [if_pos same, List.mem_cons, or_iff_right isLast]
      · rw [if_neg same]
  nodup := by
    rw [strings_push, Array.toList_push, List.nodup_append]
    refine ⟨lawful.nodup, List.nodup_singleton string, ?_⟩
    intro other present _ alone same
    rw [same, List.mem_singleton.mp alone] at present
    exact lawful.lookup?_eq_none_iff.mp isNew present
  byteSize := by
    rw [byteSize_push, strings_push, Array.toList_push, lawful.byteSize]
    simp
  fits := by
    rw [size_push]
    omega

/-! ### Interning a string -/

/-- All that interning can do: the string is known, or it is refused for the key or the
start offset that it would take, or it is stored. -/
theorem intern_cases {string : String} {result : Except InternError Nat}
    (interned : interner.intern string = (next, result)) :
    (∃ key, interner.lookup? string = some key ∧ next = interner ∧ result = .ok key) ∨
      interner.lookup? string = none ∧
        (next = interner ∧ (keyLimit ≤ interner.size ∧ result = .error (.outOfKeys interner.size) ∨
            interner.size < keyLimit ∧ offsetLimit ≤ interner.byteSize ∧
              result = .error (.outOfKeys interner.byteSize)) ∨
          interner.size < keyLimit ∧ interner.byteSize < offsetLimit ∧
            next = interner.push string ∧ result = .ok interner.size) := by
  unfold intern at interned
  split at interned
  · rename_i key found
    cases interned
    exact Or.inl ⟨key, found, rfl, rfl⟩
  · rename_i isNew
    refine Or.inr ⟨isNew, ?_⟩
    dsimp only at interned
    split at interned
    · rename_i noKey
      cases interned
      exact Or.inl ⟨rfl, Or.inl ⟨noKey, rfl⟩⟩
    · rename_i keyFits
      split at interned
      · rename_i noOffset
        cases interned
        exact Or.inl ⟨rfl, Or.inr ⟨Nat.lt_of_not_le keyFits, noOffset, rfl⟩⟩
      · rename_i offsetFits
        cases interned
        exact Or.inr ⟨Nat.lt_of_not_le keyFits, Nat.lt_of_not_le offsetFits, rfl, rfl⟩

theorem intern_eq_ok {string : String} {key : Nat}
    (interned : interner.intern string = (next, .ok key)) :
    interner.lookup? string = some key ∧ next = interner ∨
      interner.lookup? string = none ∧ interner.size < keyLimit ∧
        interner.byteSize < offsetLimit ∧ next = interner.push string ∧ key = interner.size := by
  obtain ⟨_, found, unchanged, same⟩ | ⟨isNew, ⟨_, ⟨_, error⟩ | ⟨_, _, error⟩⟩ |
    ⟨keyFits, offsetFits, stored, same⟩⟩ := intern_cases interned
  · cases same
    exact Or.inl ⟨found, unchanged⟩
  · cases error
  · cases error
  · cases same
    exact Or.inr ⟨isNew, keyFits, offsetFits, stored, rfl⟩

theorem lawful_intern (lawful : interner.Lawful) {string : String}
    {result : Except InternError Nat} (interned : interner.intern string = (next, result)) :
    next.Lawful := by
  obtain ⟨_, _, rfl, _⟩ | ⟨isNew, ⟨rfl, _⟩ | ⟨keyFits, _, rfl, _⟩⟩ := intern_cases interned
  · exact lawful
  · exact lawful
  · exact lawful_push lawful isNew keyFits

theorem grown_intern {string : String} {result : Except InternError Nat}
    (interned : interner.intern string = (next, result)) : Grown interner next := by
  obtain ⟨_, _, rfl, _⟩ | ⟨_, ⟨rfl, _⟩ | ⟨_, _, rfl, _⟩⟩ := intern_cases interned
  · exact Grown.refl _
  · exact Grown.refl _
  · exact grown_push _ _

theorem getElem?_intern (lawful : interner.Lawful) {string : String} {key : Nat}
    (interned : interner.intern string = (next, .ok key)) :
    next.strings[key]? = some string := by
  obtain ⟨found, rfl⟩ | ⟨_, _, _, rfl, rfl⟩ := intern_eq_ok interned
  · exact (lawful.lookup string key).mp found
  · rw [strings_push, ← size_strings]
    exact Array.getElem?_push_size

/-! ### Room for a string -/

/-- A string of a larger interner can be interned as long as all others are from there. -/
theorem exists_intern {large : Interner keyLimit offsetLimit} (lawful : interner.Lawful)
    (largeLawful : large.Lawful) (largeFits : large.byteSize < offsetLimit)
    (inside : interner.strings.toList ⊆ large.strings.toList) {string : String}
    (isLarge : string ∈ large.strings.toList) :
    ∃ next key, interner.intern string = (next, .ok key) ∧
      next.strings.toList ⊆ large.strings.toList := by
  rcases outcome : interner.intern string with ⟨next, result⟩
  obtain ⟨key, _, rfl, rfl⟩ | ⟨isNew, rest⟩ := intern_cases outcome
  · exact ⟨next, key, rfl, inside⟩
  · -- With the new one these are distinct strings of the larger interner, so the keys and
    -- offsets that were enough for it are enough here.
    have absent := lawful.lookup?_eq_none_iff.mp isNew
    have allInside : string :: interner.strings.toList ⊆ large.strings.toList :=
      List.cons_subset.mpr ⟨isLarge, inside⟩
    have keys := (List.subperm_of_subset (lawful.nodup.cons absent) allInside).length_le
    have keyFits : interner.size < keyLimit := by
      have largeRoom := largeLawful.fits
      simp only [List.length_cons, Array.length_toList, size_strings] at keys
      omega
    obtain ⟨part, isPerm, isPart⟩ := List.subperm_of_subset lawful.nodup inside
    have bytes : interner.byteSize ≤ large.byteSize := by
      rw [lawful.byteSize, largeLawful.byteSize, ← (isPerm.map _).sum_eq]
      exact (isPart.map String.utf8ByteSize).sum_le_sum (fun _ _ => Nat.zero_le _)
    have offsetFits : interner.byteSize < offsetLimit := Nat.lt_of_le_of_lt bytes largeFits
    obtain ⟨_, ⟨noKey, _⟩ | ⟨_, noOffset, _⟩⟩ | ⟨_, _, rfl, rfl⟩ := rest
    · exact absurd keyFits (Nat.not_lt.mpr noKey)
    · exact absurd offsetFits (Nat.not_lt.mpr noOffset)
    · refine ⟨_, _, rfl, ?_⟩
      simpa using And.intro inside isLarge

end FlowGraph.Interner
