import FlowGraph.Document.Printer
import FlowGraph.Json.Record
import Mathlib.Algebra.BigOperators.Group.List.Basic

/-!
JSON that is read back as it was written, part by part: characters, strings, lists and
records. No part has to know what follows it, so each is stated with any text behind it.
-/

namespace FlowGraph.Json

/-- A reader takes a value off every text that begins in a given way. -/
def Reads {Value : Type} (reader : Reader Value) (written : List Char) (value : Value) : Prop :=
  ∀ rest, reader (written ++ rest) = .ok (value, rest)

theorem Reads.map {Value Other : Type} {reader : Reader Value} {written : List Char}
    {value : Value} (reads : Reads reader written value) (change : Value → Other) :
    Reads (fun text => (reader text).map fun entry => (change entry.1, entry.2)) written
      (change value) := by
  intro rest
  dsimp only
  rw [reads rest]
  rfl

/-! ### Characters and strings -/

private theorem hexValue?_hexDigit {value : Nat} (isDigit : value < 16) :
    hexValue? (hexDigit value) = some value := by
  have all : ∀ digit : Fin 16, hexValue? (hexDigit digit.val) = some digit.val := by decide
  exact all ⟨value, isDigit⟩

private theorem readQuoted_digit {char : Char} {digit count : Nat}
    (isDigit : hexValue? char = some digit)
    (early : count < 3) (paired : Bool) (first : Option Nat) (value : Nat)
    (read text : List Char) :
    readQuoted paired (.digits first count value) read (char :: text) =
      readQuoted paired (.digits first (count + 1) (value * 16 + digit)) read text := by
  simp only [readQuoted, isDigit, if_pos early]

private theorem readQuoted_lastDigit {char : Char} {digit value : Nat}
    (isDigit : hexValue? char = some digit) (noHalf : value * 16 + digit < 0xd800)
    (read text : List Char) :
    readQuoted true (.digits none 3 value) read (char :: text) =
      readQuoted true .plain (Char.ofNat (value * 16 + digit) :: read) text := by
  have notSecond : isSecondHalf (value * 16 + digit) = false := by
    rw [isSecondHalf, decide_eq_false (by omega), Bool.false_and]
  have notFirst : isFirstHalf (value * 16 + digit) = false := by
    rw [isFirstHalf, decide_eq_false (by omega), Bool.false_and]
  simp only [readQuoted, isDigit, Nat.lt_irrefl, if_false, finishUnit, notSecond, notFirst,
    Bool.false_eq_true, Option.toList_some, List.singleton_append]

private theorem readQuoted_control {char : Char} (isControl : char.toNat < 0x20)
    (read text : List Char) : readQuoted true (.digits none 0 0) read
        ('0' :: '0' :: hexDigit (char.toNat / 16) :: hexDigit (char.toNat % 16) :: text) =
      readQuoted true .plain (char :: read) text := by
  have zero : hexValue? '0' = some 0 := rfl
  have high : hexValue? (hexDigit (char.toNat / 16)) = some (char.toNat / 16) :=
    hexValue?_hexDigit (by omega)
  have low : hexValue? (hexDigit (char.toNat % 16)) = some (char.toNat % 16) :=
    hexValue?_hexDigit (by omega)
  have whole : ((0 * 16 + 0) * 16 + 0) * 16 + char.toNat / 16 = char.toNat / 16 := by omega
  have unit : char.toNat / 16 * 16 + char.toNat % 16 = char.toNat := by omega
  rw [readQuoted_digit zero (by decide), readQuoted_digit zero (by decide),
    readQuoted_digit high (by decide), whole, readQuoted_lastDigit low (by omega), unit,
    Char.ofNat_toNat]

private theorem readQuoted_shortEscape {char escaped : Char}
    (isShort : shortEscape? char = some escaped) (noUnit : char ≠ 'u') (read text : List Char) :
    readQuoted true .plain read ('\\' :: char :: text) =
      readQuoted true .plain (escaped :: read) text := by
  simp only [readQuoted, isShort, noUnit, if_true, if_false, Char.reduceEq]

private theorem readQuoted_encodeChar (char : Char) (read text : List Char) :
    readQuoted true .plain read (encodeChar char ++ text) =
      readQuoted true .plain (char :: read) text := by
  unfold encodeChar
  split_ifs with quote backslash backspace formFeed newline carriageReturn tab control
  · rw [quote]
    exact readQuoted_shortEscape rfl (by decide) read text
  · rw [backslash]
    exact readQuoted_shortEscape rfl (by decide) read text
  · rw [backspace]
    exact readQuoted_shortEscape rfl (by decide) read text
  · rw [formFeed]
    exact readQuoted_shortEscape rfl (by decide) read text
  · rw [newline]
    exact readQuoted_shortEscape rfl (by decide) read text
  · rw [carriageReturn]
    exact readQuoted_shortEscape rfl (by decide) read text
  · rw [tab]
    exact readQuoted_shortEscape rfl (by decide) read text
  · have unit := readQuoted_control control read text
    simpa only [List.cons_append, List.nil_append, readQuoted, if_true, if_false, Char.reduceEq]
      using unit
  · simp only [List.cons_append, List.nil_append, readQuoted, quote, backslash, control, if_false]

private theorem readQuoted_encode (chars read text : List Char) :
    readQuoted true .plain read (chars.flatMap encodeChar ++ '"' :: text) =
      .ok (String.ofList (read.reverse ++ chars), text) := by
  induction chars generalizing read with
  | nil =>
      rw [List.flatMap_nil, List.nil_append, List.append_nil, readQuoted]
      rfl
  | cons char chars ih =>
      rw [List.flatMap_cons, List.append_assoc, readQuoted_encodeChar, ih, List.reverse_cons,
        List.append_assoc, List.singleton_append]

private theorem readString_encode (string : String) (text : List Char) :
    readString (string.toList.flatMap encodeChar ++ '"' :: text) = .ok (string, text) := by
  rw [readString, readQuoted_encode, List.reverse_nil, List.nil_append, String.ofList_toList]

private theorem encode_append (string : String) (text : List Char) :
    encode string ++ text = '"' :: (string.toList.flatMap encodeChar ++ '"' :: text) := by
  simp only [encode, List.cons_append, List.append_assoc, List.nil_append]

private theorem skipBlanks_cons {char : Char} (noBlank : isBlank char = false) (text : List Char) :
    skipBlanks (char :: text) = char :: text := by
  rw [skipBlanks, List.dropWhile_cons, noBlank]
  rfl

theorem reads_text (string : String) : Reads readText (encode string) string := by
  intro rest
  rw [encode_append, readText, skipBlanks_cons rfl]
  exact readString_encode string rest

theorem reads_nullable (string : String) : Reads readNullable (encode string) (some string) := by
  intro rest
  have read := reads_text string rest
  rw [encode_append] at read ⊢
  rw [readNullable, skipBlanks_cons rfl]
  change (readText _).map _ = _
  rw [read]
  rfl

/-! ### Lists -/

private theorem separated_cons (value : List Char) (values : List (List Char)) :
    separated (value :: values) = value ++ values.flatMap (',' :: ·) := by
  induction values generalizing value with
  | nil => simp [separated]
  | cons next values ih =>
      have unfolded : separated (value :: next :: values) =
          value ++ ',' :: separated (next :: values) := by
        simp [separated, List.intercalate]
      rw [unfolded, ih, List.flatMap_cons, List.cons_append]

private theorem length_le_length_separated (values : List (List Char))
    (occupied : ∀ value ∈ values, value ≠ []) : values.length ≤ (separated values).length := by
  cases values with
  | nil => exact Nat.zero_le _
  | cons value values =>
      have later : values.length ≤ (values.flatMap (',' :: ·)).length := by
        have all := List.length_le_sum_of_one_le
          (values.map fun value => (',' :: value).length) (by simp)
        rwa [List.length_map, ← List.length_flatMap] at all
      have first := List.length_pos_of_ne_nil (occupied value List.mem_cons_self)
      rw [separated_cons, List.length_append, List.length_cons]
      omega

def OpensValue (written : List Char) : Prop :=
  ∃ char rest, written = char :: rest ∧ isBlank char = false ∧ char ≠ ']'

private theorem nextElement_first {written : List Char} (opens : OpensValue written)
    (rest : List Char) : nextElement true (written ++ rest) = .ok (true, written ++ rest) := by
  obtain ⟨char, body, rfl, noBlank, noEnd⟩ := opens
  rw [List.cons_append, nextElement, skipBlanks_cons noBlank]
  simp

private theorem nextElement_later {written : List Char} (opens : OpensValue written)
    (rest : List Char) :
    nextElement false (',' :: (written ++ rest)) = .ok (true, written ++ rest) := by
  obtain ⟨char, body, rfl, noBlank, noEnd⟩ := opens
  rw [List.cons_append, nextElement, skipBlanks_cons rfl]
  simp [skipBlanks_cons noBlank, noEnd]

section Lists

variable {Value : Type} {element : Reader Value} {write : Value → List Char}

private theorem readElements_later (reads : ∀ value, Reads element (write value) value)
    (opens : ∀ value, OpensValue (write value)) (values : List Value) {steps : Nat}
    (enough : values.length < steps) (rest : List Char) :
    readElements element steps false
        ((values.map write).flatMap (',' :: ·) ++ ']' :: rest) = .ok (values, ']' :: rest) := by
  induction values generalizing steps with
  | nil =>
      obtain ⟨steps, rfl⟩ := Nat.exists_eq_succ_of_ne_zero (Nat.ne_of_gt enough)
      rfl
  | cons value values ih =>
      obtain ⟨steps, rfl⟩ := Nat.exists_eq_succ_of_ne_zero (Nat.ne_zero_of_lt enough)
      have later := nextElement_later (opens value)
        ((values.map write).flatMap (',' :: ·) ++ ']' :: rest)
      have tail := ih (Nat.lt_of_succ_lt_succ enough)
      rw [List.map_cons, List.flatMap_cons, List.append_assoc, List.cons_append]
      simp only [readElements, bind, Except.bind, later, reads value _, tail, if_true]

private theorem readElements_first (reads : ∀ value, Reads element (write value) value)
    (opens : ∀ value, OpensValue (write value)) (values : List Value) {steps : Nat}
    (enough : values.length < steps) (rest : List Char) :
    readElements element steps true (separated (values.map write) ++ ']' :: rest) =
      .ok (values, ']' :: rest) := by
  obtain ⟨steps, rfl⟩ := Nat.exists_eq_succ_of_ne_zero (Nat.ne_zero_of_lt enough)
  cases values with
  | nil => rfl
  | cons value values =>
      have first := nextElement_first (opens value)
        ((values.map write).flatMap (',' :: ·) ++ ']' :: rest)
      have fewer : values.length < steps := Nat.lt_of_succ_lt_succ enough
      have tail := readElements_later reads opens values fewer rest
      rw [List.map_cons, separated_cons, List.append_assoc]
      simp only [readElements, bind, Except.bind, first, reads value _, tail, if_true]

theorem reads_list (reads : ∀ value, Reads element (write value) value)
    (opens : ∀ value, OpensValue (write value)) (values : List Value) :
    Reads (readList element) (array (values.map write)) values := by
  intro rest
  have whole : array (values.map write) ++ rest =
      '[' :: (separated (values.map write) ++ ']' :: rest) := by
    simp [array]
  have enough : values.length < (separated (values.map write) ++ ']' :: rest).length + 1 := by
    have fewer := length_le_length_separated (values.map write) (by
      intro written image
      obtain ⟨value, _, rfl⟩ := List.mem_map.mp image
      obtain ⟨char, body, same, _⟩ := opens value
      exact List.ne_nil_of_mem (same ▸ List.mem_cons_self))
    rw [List.length_map] at fewer
    rw [List.length_append]
    omega
  have elements := readElements_first reads opens values enough rest
  have close : endArray (']' :: rest) = .ok rest := rfl
  rw [whole, readList, skipBlanks_cons rfl]
  simp only [elements, bind, Except.bind, close]

end Lists

/-! ### Records -/

namespace RecordShape

variable {Draft Record : Type} {shape : RecordShape Draft Record}

/-- The entries of an object take a draft from one state to another, each for a field that
has not been read before. -/
inductive Fills (shape : RecordShape Draft Record) : Draft → List (List Char) → Draft → Prop where
  | nil (draft : Draft) : Fills shape draft [] draft
  | cons {draft next last : Draft} {name : String} {field : RecordField Draft}
      {value : List Char} {entries : List (List Char)}
      (known : shape.fields.find? (fun field => field.name == name) = some field)
      (unread : field.isRead draft = false) (reads : Reads (field.read draft) value next)
      (rest : Fills shape next entries last) :
      Fills shape draft (entry name value :: entries) last

theorem Fills.append {draft next last : Draft} {entries others : List (List Char)}
    (first : Fills shape draft entries next) (second : Fills shape next others last) :
    Fills shape draft (entries ++ others) last := by
  induction first with
  | nil => exact second
  | cons known unread reads _ ih => exact .cons known unread reads (ih second)

theorem Fills.ne_nil {draft last : Draft} {entries : List (List Char)}
    (fills : Fills shape draft entries last) : ∀ entry ∈ entries, entry ≠ [] := by
  induction fills with
  | nil => nofun
  | cons _ _ _ _ ih =>
      intro written present
      rcases List.mem_cons.mp present with rfl | inRest
      · simp [entry, encode]
      · exact ih written inRest

private theorem entry_append (name : String) (value text : List Char) :
    entry name value ++ text =
      '"' :: (name.toList.flatMap encodeChar ++ '"' :: ':' :: (value ++ text)) := by
  simp only [entry, encode, List.cons_append, List.append_assoc, List.nil_append]

private theorem nextKey_first (name : String) (value text : List Char) :
    nextKey true (entry name value ++ text) = .ok (some name, ':' :: (value ++ text)) := by
  rw [entry_append, nextKey, skipBlanks_cons rfl]
  change (readString _).map _ = _
  rw [readString_encode]
  rfl

private theorem nextKey_later (name : String) (value text : List Char) :
    nextKey false (',' :: (entry name value ++ text)) =
      .ok (some name, ':' :: (value ++ text)) := by
  rw [entry_append, nextKey, skipBlanks_cons rfl]
  change (readString _).map _ = _
  rw [readString_encode]
  rfl

private theorem readField_of_known {draft next : Draft} {name : String} {field : RecordField Draft}
    {value : List Char} (known : shape.fields.find? (fun field => field.name == name) = some field)
    (unread : field.isRead draft = false) (reads : Reads (field.read draft) value next)
    (text : List Char) :
    shape.readField name draft (':' :: (value ++ text)) = .ok (next, text) := by
  have colon : skipColon (':' :: (value ++ text)) = .ok (value ++ text) := rfl
  simp only [readField, known, unread, Bool.false_eq_true, if_false, colon, bind, Except.bind,
    reads text]

private theorem Fills.readByName_later {draft last : Draft} {entries : List (List Char)}
    (fills : Fills shape draft entries last) {steps : Nat} (enough : entries.length < steps)
    (rest : List Char) :
    shape.readByName steps false draft (entries.flatMap (',' :: ·) ++ '\x7d' :: rest) =
      .ok (last, rest) := by
  induction fills generalizing steps with
  | nil draft =>
      obtain ⟨steps, rfl⟩ := Nat.exists_eq_succ_of_ne_zero (Nat.ne_of_gt enough)
      rfl
  | @cons draft next last name field value entries known unread reads _ ih =>
      obtain ⟨steps, rfl⟩ := Nat.exists_eq_succ_of_ne_zero (Nat.ne_zero_of_lt enough)
      have key := nextKey_later name value (entries.flatMap (',' :: ·) ++ '\x7d' :: rest)
      have tail := ih (Nat.lt_of_succ_lt_succ enough)
      rw [List.flatMap_cons, List.append_assoc, List.cons_append]
      simp only [readByName, bind, Except.bind, key, readField_of_known known unread reads, tail]

private theorem Fills.readByName_first {draft last : Draft} {entries : List (List Char)}
    (fills : Fills shape draft entries last) {steps : Nat} (enough : entries.length < steps)
    (rest : List Char) :
    shape.readByName steps true draft (separated entries ++ '\x7d' :: rest) = .ok (last, rest) := by
  obtain ⟨steps, rfl⟩ := Nat.exists_eq_succ_of_ne_zero (Nat.ne_zero_of_lt enough)
  cases fills with
  | nil => rfl
  | @cons _ next _ name field value entries known unread reads fills =>
      have key := nextKey_first name value (entries.flatMap (',' :: ·) ++ '\x7d' :: rest)
      have tail := fills.readByName_later (Nat.lt_of_succ_lt_succ enough) rest
      rw [separated_cons, List.append_assoc]
      simp only [readByName, bind, Except.bind, key, readField_of_known known unread reads, tail]

/-- An object is read as the record of the draft that its entries fill. -/
theorem Fills.reads_object {draft : Draft} {record : Record} {entries : List (List Char)}
    (fills : Fills shape shape.blank entries draft) (finished : shape.finish draft = .ok record) :
    Reads shape.read (object entries) record := by
  intro rest
  have whole : object entries ++ rest = '\x7b' :: (separated entries ++ '\x7d' :: rest) := by
    simp [object]
  have enough : entries.length < (separated entries ++ '\x7d' :: rest).length + 1 := by
    have fewer := length_le_length_separated entries fills.ne_nil
    rw [List.length_append]
    omega
  have filled := fills.readByName_first enough rest
  rw [whole, read, skipBlanks_cons rfl]
  simp only [filled, bind, Except.bind, complete, finished]
  rfl

end RecordShape

theorem opensValue_object (entries : List (List Char)) : OpensValue (object entries) :=
  ⟨'\x7b', _, rfl, rfl, by decide⟩

end FlowGraph.Json
