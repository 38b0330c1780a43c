import FlowGraph.Proofs.Interning
import Mathlib.Data.List.Induction

/-!
Lists of texts that are interned one after another. An interner takes them all exactly when
their distinct texts fit in it: as many of them as there are keys, with start offsets within
the limit.
-/

namespace FlowGraph

def byteSizeOf (texts : List String) : Nat := (texts.map String.utf8ByteSize).sum

/-- The distinct ones of some texts have a key each, and all start offsets are in range. The
last of these is the length of all but the last of them. -/
structure Fits (keyLimit offsetLimit : Nat) (texts : List String) : Prop where
  keys : texts.eraseDups.length ≤ keyLimit
  offsets : byteSizeOf texts.eraseDups.dropLast < offsetLimit

/-- Texts that fit in whichever order they come up, and also if some of them do not. -/
structure FitsAnyhow (keyLimit offsetLimit : Nat) (texts : List String) : Prop where
  keys : texts.eraseDups.length ≤ keyLimit
  bytes : byteSizeOf texts.eraseDups < offsetLimit

private theorem byteSizeOf_dropLast_le (texts : List String) :
    byteSizeOf texts.dropLast ≤ byteSizeOf texts :=
  ((List.dropLast_sublist texts).map _).sum_le_sum fun _ _ => Nat.zero_le _

theorem FitsAnyhow.fits {keyLimit offsetLimit : Nat} {texts : List String}
    (fits : FitsAnyhow keyLimit offsetLimit texts) : Fits keyLimit offsetLimit texts :=
  ⟨fits.keys, Nat.lt_of_le_of_lt (byteSizeOf_dropLast_le _) fits.bytes⟩

namespace Interner

variable {keyLimit offsetLimit : Nat} {interner next : Interner keyLimit offsetLimit}

def internAll (interner : Interner keyLimit offsetLimit) :
    List String → Option (Interner keyLimit offsetLimit)
  | [] => some interner
  | text :: texts =>
      match interner.intern text with
      | (_, .error _) => none
      | (next, .ok _) => next.internAll texts

theorem internAll_cons_eq_some {text : String} {texts : List String} :
    interner.internAll (text :: texts) = some next ↔
      ∃ known key, interner.intern text = (known, .ok key) ∧ known.internAll texts = some next := by
  rw [internAll]
  rcases interner.intern text with ⟨known, error | key⟩
  · simp
  · simp

private theorem internAll_append (interner : Interner keyLimit offsetLimit)
    (texts others : List String) : interner.internAll (texts ++ others) =
      (interner.internAll texts).bind fun known => known.internAll others := by
  induction texts generalizing interner with
  | nil => rfl
  | cons text texts ih =>
      rw [List.cons_append, internAll, internAll]
      rcases interner.intern text with ⟨known, error | key⟩
      · rfl
      · exact ih known

theorem internAll_append_eq_some {texts others : List String} :
    interner.internAll (texts ++ others) = some next ↔
      ∃ known, interner.internAll texts = some known ∧ known.internAll others = some next := by
  rw [internAll_append, Option.bind_eq_some_iff]

private theorem lawful_internAll (lawful : interner.Lawful) {texts : List String}
    (interned : interner.internAll texts = some next) : next.Lawful := by
  induction texts generalizing interner with
  | nil =>
      cases interned
      exact lawful
  | cons text texts ih =>
      obtain ⟨known, key, first, rest⟩ := internAll_cons_eq_some.mp interned
      exact ih (lawful_intern lawful first) rest

/-! ### Distinct texts -/

private theorem eraseDups_concat (texts : List String) (text : String) :
    (texts ++ [text]).eraseDups = texts.eraseDups ++ if text ∈ texts then [] else [text] := by
  rw [List.eraseDups_append, List.removeAll]
  by_cases known : text ∈ texts <;> simp [known, List.eraseDups_cons]

private theorem toList_intern (lawful : interner.Lawful) {text : String} {key : Nat}
    (interned : interner.intern text = (next, .ok key)) :
    next.strings.toList =
      interner.strings.toList ++ if text ∈ interner.strings.toList then [] else [text] := by
  obtain ⟨found, rfl⟩ | ⟨isNew, _, _, rfl, _⟩ := intern_eq_ok interned
  · rw [if_pos (lawful.mem_of_lookup? found), List.append_nil]
  · rw [if_neg (lawful.lookup?_eq_none_iff.mp isNew), strings_push, Array.toList_push]

theorem toList_internAll (lawful : interner.Lawful) (known : List String) {texts : List String}
    (stored : interner.strings.toList = known.eraseDups)
    (interned : interner.internAll texts = some next) :
    next.strings.toList = (known ++ texts).eraseDups := by
  induction texts generalizing interner known with
  | nil =>
      cases interned
      rw [stored, List.append_nil]
  | cons text texts ih =>
      obtain ⟨middle, key, first, rest⟩ := internAll_cons_eq_some.mp interned
      have nowStored : middle.strings.toList = (known ++ [text]).eraseDups := by
        rw [toList_intern lawful first, stored, eraseDups_concat]
        simp only [List.mem_eraseDups]
      have whole := ih (lawful_intern lawful first) _ nowStored rest
      rwa [List.append_assoc] at whole

/-! ### Texts that fit -/

private theorem exists_intern_iff (lawful : interner.Lawful) (text : String) :
    (∃ next key, interner.intern text = (next, .ok key)) ↔
      text ∈ interner.strings.toList ∨
        interner.strings.toList.length < keyLimit ∧
          byteSizeOf interner.strings.toList < offsetLimit := by
  rw [byteSizeOf, ← lawful.byteSize, Array.length_toList, size_strings]
  rcases outcome : interner.intern text with ⟨next, result⟩
  obtain ⟨key, found, _, rfl⟩ | ⟨isNew, rest⟩ := intern_cases outcome
  · exact iff_of_true ⟨_, _, rfl⟩ (Or.inl (lawful.mem_of_lookup? found))
  · rw [or_iff_right (lawful.lookup?_eq_none_iff.mp isNew)]
    obtain ⟨_, ⟨noKey, rfl⟩ | ⟨_, noOffset, rfl⟩⟩ | ⟨keyFits, offsetFits, _, rfl⟩ := rest
    · exact iff_of_false (by simp) fun room => Nat.not_lt.mpr noKey room.1
    · exact iff_of_false (by simp) fun room => Nat.not_lt.mpr noOffset room.2
    · exact iff_of_true ⟨_, _, rfl⟩ ⟨keyFits, offsetFits⟩

private theorem fits_concat_iff {texts : List String} {text : String} :
    Fits keyLimit offsetLimit (texts ++ [text]) ↔ Fits keyLimit offsetLimit texts ∧
      (text ∈ texts ∨ texts.eraseDups.length < keyLimit ∧
        byteSizeOf texts.eraseDups < offsetLimit) := by
  have fewer := byteSizeOf_dropLast_le texts.eraseDups
  by_cases known : text ∈ texts
  · constructor
    · rintro ⟨keys, offsets⟩
      rw [eraseDups_concat, if_pos known, List.append_nil] at keys offsets
      exact ⟨⟨keys, offsets⟩, Or.inl known⟩
    · rintro ⟨⟨keys, offsets⟩, _⟩
      refine ⟨?_, ?_⟩ <;> rwa [eraseDups_concat, if_pos known, List.append_nil]
  · constructor
    · rintro ⟨keys, offsets⟩
      rw [eraseDups_concat, if_neg known] at keys offsets
      rw [List.length_append, List.length_singleton] at keys
      rw [List.dropLast_concat] at offsets
      exact ⟨⟨by omega, by omega⟩, Or.inr ⟨by omega, offsets⟩⟩
    · rintro ⟨⟨keys, offsets⟩, isKnown | ⟨room, offset⟩⟩
      · exact (known isKnown).elim
      · refine ⟨?_, ?_⟩
        · rw [eraseDups_concat, if_neg known, List.length_append, List.length_singleton]
          omega
        · rwa [eraseDups_concat, if_neg known, List.dropLast_concat]

/-- An empty interner takes exactly the texts that fit. -/
theorem exists_internAll_empty_iff (positive : 0 < offsetLimit) (texts : List String) :
    (∃ next, (empty : Interner keyLimit offsetLimit).internAll texts = some next) ↔
      Fits keyLimit offsetLimit texts := by
  -- From the end, since the interner that meets the last text holds exactly the others.
  induction texts using List.reverseRecOn with
  | nil => exact iff_of_true ⟨_, rfl⟩ ⟨Nat.zero_le _, positive⟩
  | append_singleton texts text ih =>
      have stored : ∀ {known},
          (empty : Interner keyLimit offsetLimit).internAll texts = some known →
            known.Lawful ∧ known.strings.toList = texts.eraseDups := fun interned =>
        ⟨lawful_internAll lawful_empty interned,
          toList_internAll lawful_empty [] toList_strings_empty interned⟩
      rw [fits_concat_iff, ← ih]
      constructor
      · rintro ⟨next, interned⟩
        obtain ⟨known, ofTexts, ofText⟩ := internAll_append_eq_some.mp interned
        obtain ⟨lawful, toList⟩ := stored ofTexts
        obtain ⟨_, key, last, _⟩ := internAll_cons_eq_some.mp ofText
        have room := (exists_intern_iff lawful text).mp ⟨_, key, last⟩
        rw [toList, List.mem_eraseDups] at room
        exact ⟨⟨known, ofTexts⟩, room⟩
      · rintro ⟨⟨known, ofTexts⟩, room⟩
        obtain ⟨lawful, toList⟩ := stored ofTexts
        rw [← List.mem_eraseDups, ← toList] at room
        obtain ⟨next, key, last⟩ := (exists_intern_iff lawful text).mpr room
        exact ⟨next, internAll_append_eq_some.mpr
          ⟨known, ofTexts, internAll_cons_eq_some.mpr ⟨next, key, last, rfl⟩⟩⟩

theorem exists_large {texts : List String} (fits : FitsAnyhow keyLimit offsetLimit texts) :
    ∃ large : Interner keyLimit offsetLimit, large.Lawful ∧ texts ⊆ large.strings.toList ∧
      large.byteSize < offsetLimit := by
  obtain ⟨large, interned⟩ :=
    (exists_internAll_empty_iff (Nat.zero_lt_of_lt fits.bytes) texts).mpr fits.fits
  have lawful := lawful_internAll lawful_empty interned
  have stored := toList_internAll lawful_empty [] toList_strings_empty interned
  rw [List.nil_append] at stored
  refine ⟨large, lawful, fun text present => ?_, ?_⟩
  · rw [stored]
    exact List.mem_eraseDups.mpr present
  · rw [lawful.byteSize, stored]
    exact fits.bytes

end Interner

end FlowGraph
