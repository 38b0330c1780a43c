import FlowGraph.Proofs.InternedTexts

/-!
An interner answers as a list of distinct strings does, whatever it is asked for and
whether or not it takes it. Neither the text that all strings are cut out of nor the hash
that the table goes by shows in any answer.
-/

namespace FlowGraph

/-- What becomes of a list of distinct strings when one is asked for, and its key: the place
in the list. A new string is put at the end, unless its place or the length of all strings
before it is out of range. -/
def enlist (keyLimit offsetLimit : Nat) (strings : List String) (string : String) :
    List String × Except InternError Nat :=
  if string ∈ strings then
    (strings, .ok (strings.idxOf string))
  else if keyLimit ≤ strings.length then
    (strings, .error (.outOfKeys strings.length))
  else if offsetLimit ≤ byteSizeOf strings then
    (strings, .error (.outOfKeys (byteSizeOf strings)))
  else
    (strings ++ [string], .ok strings.length)

def askForAll {State Answer : Type} (ask : State → String → State × Answer) (state : State) :
    List String → State × List Answer
  | [] => (state, [])
  | string :: rest =>
      let next := ask state string
      let last := askForAll ask next.1 rest
      (last.1, next.2 :: last.2)

namespace Interner

variable {keyLimit offsetLimit : Nat} {interner : Interner keyLimit offsetLimit}

private theorem Lawful.idxOf_eq (lawful : interner.Lawful) {string : String} {key : Nat}
    (stored : interner.strings[key]? = some string) :
    interner.strings.toList.idxOf string = key := by
  rw [← Array.getElem?_toList] at stored
  obtain ⟨bound, rfl⟩ := List.getElem?_eq_some_iff.mp stored
  exact lawful.nodup.idxOf_getElem key bound

/-- One string changes an interner and its list in the same way. -/
theorem intern_eq_enlist (lawful : interner.Lawful) (string : String) :
    ((interner.intern string).1.strings.toList, (interner.intern string).2) =
      enlist keyLimit offsetLimit interner.strings.toList string := by
  have length : interner.strings.toList.length = interner.size := by
    rw [Array.length_toList, size_strings]
  have bytes : byteSizeOf interner.strings.toList = interner.byteSize := lawful.byteSize.symm
  rw [enlist, length, bytes]
  rcases outcome : interner.intern string with ⟨next, result⟩
  obtain ⟨key, found, rfl, rfl⟩ | ⟨isNew, rest⟩ := intern_cases outcome
  · have stored := (lawful.lookup string key).mp found
    rw [if_pos (lawful.mem_of_lookup? found), lawful.idxOf_eq stored]
  · rw [if_neg (lawful.lookup?_eq_none_iff.mp isNew)]
    obtain ⟨rfl, ⟨noKey, rfl⟩ | ⟨keyFits, noOffset, rfl⟩⟩ | ⟨keyFits, offsetFits, rfl, rfl⟩ := rest
    · rw [if_pos noKey]
    · rw [if_neg (Nat.not_le.mpr keyFits), if_pos noOffset]
    · rw [if_neg (Nat.not_le.mpr keyFits), if_neg (Nat.not_le.mpr offsetFits), strings_push,
        Array.toList_push]

private theorem askForAll_intern (lawful : interner.Lawful) (asked : List String) :
    (askForAll intern interner asked).1.Lawful ∧
      ((askForAll intern interner asked).1.strings.toList,
          (askForAll intern interner asked).2) =
        askForAll (enlist keyLimit offsetLimit) interner.strings.toList asked := by
  induction asked generalizing interner with
  | nil => exact ⟨lawful, rfl⟩
  | cons string asked ih =>
      have step := intern_eq_enlist lawful string
      obtain ⟨lawfulLast, last⟩ := ih (lawful_intern lawful (Prod.mk.eta).symm)
      refine ⟨lawfulLast, ?_⟩
      rw [askForAll, askForAll, ← step]
      dsimp only
      rw [← last]

/-! ### What is found in a list -/

/-- All that an interner can be asked is answered as by a list of distinct strings, and a
string that it knows or does not take leaves it as it is. -/
structure AnswersAs (interner : Interner keyLimit offsetLimit) (strings : List String) :
    Prop where
  nodup : strings.Nodup
  size : interner.size = strings.length
  byteSize : interner.byteSize = byteSizeOf strings
  get : ∀ key, interner.get key =
    match strings[key]? with
    | some string => .ok string
    | none => .error (.keyNotFound key)
  lookup : ∀ string key, interner.lookup? string = some key ↔ strings[key]? = some string
  known : ∀ string ∈ strings, (interner.intern string).1 = interner
  refused : ∀ string error, (interner.intern string).2 = .error error →
    (interner.intern string).1 = interner

theorem Lawful.known (lawful : interner.Lawful) {string : String}
    (present : string ∈ interner.strings.toList) : (interner.intern string).1 = interner := by
  rcases outcome : interner.intern string with ⟨next, result⟩
  obtain ⟨_, _, rfl, _⟩ | ⟨isNew, _⟩ := intern_cases outcome
  · rfl
  · exact absurd present (lawful.lookup?_eq_none_iff.mp isNew)

private theorem fst_intern_of_error {string : String} {error : InternError}
    (refused : (interner.intern string).2 = .error error) :
    (interner.intern string).1 = interner := by
  rcases outcome : interner.intern string with ⟨next, result⟩
  rw [outcome] at refused
  obtain ⟨_, _, rfl, _⟩ | ⟨_, ⟨rfl, _⟩ | ⟨_, _, _, rfl⟩⟩ := intern_cases outcome
  · rfl
  · rfl
  · cases refused

private theorem Lawful.answersAs (lawful : interner.Lawful) :
    interner.AnswersAs interner.strings.toList where
  nodup := lawful.nodup
  size := by rw [Array.length_toList, size_strings]
  byteSize := lawful.byteSize
  get := by
    intro key
    rw [Array.getElem?_toList, getElem?_strings, get]
    by_cases stored : key < interner.size
    · rw [if_pos stored, if_pos stored]
    · rw [if_neg stored, if_neg stored]
  lookup := by
    intro string key
    rw [Array.getElem?_toList]
    exact lawful.lookup string key
  known := fun _ present => lawful.known present
  refused := fun _ _ outcome => fst_intern_of_error outcome

/-- From the empty interner on, whatever its hash, every request is answered as by a list of
distinct strings: by its place, by the next place, or by the number that is out of range. And
so is whatever the interner is asked in the end. -/
theorem intern_answers_as_listing (hash : String → Nat) (asked : List String) :
    (askForAll intern (ofHash hash : Interner keyLimit offsetLimit) asked).2 =
        (askForAll (enlist keyLimit offsetLimit) [] asked).2 ∧
      (askForAll intern (ofHash hash : Interner keyLimit offsetLimit) asked).1.AnswersAs
        (askForAll (enlist keyLimit offsetLimit) [] asked).1 := by
  have ofEmpty : (ofHash hash : Interner keyLimit offsetLimit).Lawful := lawful_ofHash hash
  obtain ⟨lawful, same⟩ := askForAll_intern ofEmpty asked
  rw [strings_ofHash] at same
  have sameStrings := congrArg Prod.fst same
  exact ⟨congrArg Prod.snd same, sameStrings ▸ lawful.answersAs⟩

/-- Texts of no and of two bytes among others, all under one hash. The last text runs past
the limit of the offsets, which leaves no start for another one. -/
example :
    ((askForAll intern (ofHash fun _ => 0 : Interner 5 3) ["", "é", "long", "x", "é"]).2.map
        Except.toOption) = [some 0, some 1, some 2, none, some 1] := by
  decide +kernel

end Interner

end FlowGraph
