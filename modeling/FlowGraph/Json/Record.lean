import FlowGraph.Json.Skip

/-!
Reading strings, lists and records. A record is written as an object, in which
unknown fields are passed over, or as an array of its fields in order of
declaration, in which optional fields may be missing at the end.
-/

namespace FlowGraph.Json

/-! ### Values of the wrong kind -/

/-- The value at the beginning of a text. An array or object is not looked into. -/
def found : List Char → Except Fault Found
  | [] => .error .endOfText
  | 'n' :: text => (skipWord ['u', 'l', 'l'] text).map fun _ => .null
  | 't' :: text => (skipWord ['r', 'u', 'e'] text).map fun _ => .boolean true
  | 'f' :: text => (skipWord ['a', 'l', 's', 'e'] text).map fun _ => .boolean false
  | '-' :: text => (readNumber true text).map Prod.fst
  | '"' :: text => (readString text).map fun entry => .text entry.1
  | '[' :: _ => .ok .array
  | '\x7b' :: _ => .ok .object
  | char :: text =>
      if char.isDigit then (readNumber false (char :: text)).map Prod.fst else .error .malformed

/-- The fault of a text that begins with a value of the wrong kind. -/
def wrongKind (expected : String) (text : List Char) : Fault :=
  match found text with
  | .error fault => fault
  | .ok found => .shape (.invalidType found expected)

/-! ### Strings -/

def readText : Reader String := fun text =>
  match skipBlanks text with
  | '"' :: text => readString text
  | text => .error (wrongKind "a string" text)

def readNullable : Reader (Option String) := fun text =>
  match skipBlanks text with
  | 'n' :: text => (skipWord ['u', 'l', 'l'] text).map fun text => (none, text)
  | text => (readText text).map fun entry => (some entry.1, entry.2)

/-! ### Lists -/

/-- Whether an array has one more element: the text at the element or, if there
is none, at the closing bracket. -/
def nextElement (first : Bool) (text : List Char) : Except Fault (Bool × List Char) :=
  match skipBlanks text with
  | [] => .error .endOfText
  | ']' :: text => .ok (false, ']' :: text)
  | char :: text =>
      if first then
        .ok (true, char :: text)
      else if char = ',' then
        match skipBlanks text with
        | [] => .error .endOfText
        | ']' :: _ => .error .malformed
        | text => .ok (true, text)
      else
        .error .malformed

def endArray (text : List Char) : Except Fault (List Char) :=
  match skipBlanks text with
  | ']' :: text => .ok text
  | text => .error (faultAt text)

/-- Reads at most the given number of elements, up to the closing bracket. -/
def readElements {Value : Type} (element : Reader Value) : Nat → Bool → Reader (List Value)
  | 0, _, _ => .error .malformed
  | steps + 1, first, text => do
      let (more, text) ← nextElement first text
      if more then
        let (value, text) ← element text
        let (values, text) ← readElements element steps false text
        .ok (value :: values, text)
      else
        .ok ([], text)

def readList {Value : Type} (element : Reader Value) : Reader (List Value) := fun text =>
  match skipBlanks text with
  | '[' :: text => do
      let (values, text) ← readElements element (text.length + 1) true text
      let text ← endArray text
      .ok (values, text)
  | text => .error (wrongKind "a sequence" text)

/-! ### Records -/

structure RecordField (Draft : Type) where
  name : String
  required : Bool
  isRead : Draft → Bool
  read : Draft → Reader Draft

structure RecordShape (Draft Record : Type) where
  name : String
  fields : List (RecordField Draft)
  blank : Draft
  /-- The record of a draft, or the first field that is missing. -/
  finish : Draft → Except ShapeError Record

namespace RecordShape

variable {Draft Record : Type} (shape : RecordShape Draft Record)

def title : String := "struct " ++ shape.name

/-- Reads the fields of a record that is written as an array. The index is that
of the next field. -/
def readInOrder : List (RecordField Draft) → Nat → Bool → Draft → Reader Draft
  | [], _, _, draft, text => .ok (draft, text)
  | field :: fields, index, first, draft, text => do
      let (more, text) ← nextElement first text
      if more then
        let (draft, text) ← field.read draft text
        readInOrder fields (index + 1) false draft text
      else if field.required then
        let expected := shape.title ++ " with " ++ toString shape.fields.length ++ " elements"
        .error (.shape (.invalidLength index expected))
      else
        readInOrder fields (index + 1) first draft text

/-- The next key of an object and the text behind it; nothing at the closing
brace, which is passed over. -/
def nextKey (first : Bool) (text : List Char) : Except Fault (Option String × List Char) :=
  let key (text : List Char) : Except Fault (Option String × List Char) :=
    match text with
    | '"' :: text => (readString text).map fun entry => (some entry.1, entry.2)
    | text => .error (faultAt text)
  match skipBlanks text with
  | [] => .error .endOfText
  | '\x7d' :: text => .ok (none, text)
  | char :: text =>
      if first then key (char :: text)
      else if char = ',' then key (skipBlanks text)
      else .error .malformed

def skipColon (text : List Char) : Except Fault (List Char) :=
  match skipBlanks text with
  | ':' :: text => .ok text
  | text => .error (faultAt text)

/-- Reads the value behind a key. A known field must not be read twice, and an
unknown one is passed over. -/
def readField (key : String) (draft : Draft) : Reader Draft := fun text =>
  match shape.fields.find? fun field => field.name == key with
  | none => do
      let text ← skipColon text
      let text ← skipValue text
      .ok (draft, text)
  | some field =>
      if field.isRead draft then
        .error (.shape (.duplicateField key))
      else do
        let text ← skipColon text
        field.read draft text

/-- Reads at most the given number of fields of a record that is written as an
object, up to and with the closing brace. -/
def readByName : Nat → Bool → Draft → Reader Draft
  | 0, _, _, _ => .error .malformed
  | steps + 1, first, draft, text => do
      let (key, text) ← nextKey first text
      match key with
      | none => .ok (draft, text)
      | some key =>
          let (draft, text) ← shape.readField key draft text
          readByName steps false draft text

def complete (draft : Draft) : Except Fault Record := (shape.finish draft).mapError Fault.shape

def read : Reader Record := fun text =>
  match skipBlanks text with
  | '[' :: text => do
      let (draft, text) ← shape.readInOrder shape.fields 0 true shape.blank text
      let record ← shape.complete draft
      let text ← endArray text
      .ok (record, text)
  | '\x7b' :: text => do
      let (draft, text) ← shape.readByName (text.length + 1) true shape.blank text
      let record ← shape.complete draft
      .ok (record, text)
  | text => .error (wrongKind shape.title text)

end RecordShape

def readWhole {Value : Type} (reader : Reader Value) (text : String) : Except Fault Value := do
  let (value, rest) ← reader text.toList
  if (skipBlanks rest).isEmpty then .ok value else .error .malformed

end FlowGraph.Json
