import Std.Data.TreeMap

/-!
String interning. Every distinct string is stored once and named by its rank of
arrival. The strings stand back to back in one text, of which only the places are
kept where they start; the table holds their keys by hash, but not the strings.

Keys and start offsets are bounded; the last string may run past the last offset.
A string whose key or start offset would not fit is refused and leaves the interner
as it was.
-/

namespace FlowGraph

inductive InternError where
  | keyNotFound (key : Nat)
  /-- The number that no longer fits: the next key or the next start offset. -/
  | outOfKeys (number : Nat)
  deriving DecidableEq

def InternError.message : InternError → String
  | .keyNotFound key => s!"Interned string key {key} is out of range"
  | .outOfKeys number => s!"Out of interner keys; {number} does not fit in the key type"

/-- Distinct strings in order of arrival, with keys below `keyLimit` and start
offsets below `offsetLimit`. -/
structure Interner (keyLimit offsetLimit : Nat) where
  /-- Which hash it is shows in no answer. -/
  hash : String → Nat
  /-- All strings back to back. -/
  text : String
  /-- Where each string starts in the text, counted in bytes. -/
  starts : Array Nat
  /-- The keys of the strings, by hash. -/
  keys : Std.TreeMap Nat (List Nat)
  /-- No string starts within a character, so the text can be cut there. -/
  aligned : ∀ start ∈ starts, (String.Pos.Raw.mk start).IsValid text

namespace Interner

variable {keyLimit offsetLimit : Nat}

def ofHash (hash : String → Nat) : Interner keyLimit offsetLimit :=
  { hash := hash, text := "", starts := #[], keys := ∅, aligned := nofun }

/-- The bytes of a string as the digits of a number, reduced to 64 bits. -/
def byteHash (string : String) : Nat :=
  string.toByteArray.data.foldl
    (fun hash byte => (hash * 1099511628211 + byte.toNat) % UInt64.size) 0

def empty : Interner keyLimit offsetLimit := ofHash byteHash

def size (interner : Interner keyLimit offsetLimit) : Nat := interner.starts.size

def isEmpty (interner : Interner keyLimit offsetLimit) : Bool := interner.starts.isEmpty

/-- Total length of all strings in bytes, which is the next start offset. -/
def byteSize (interner : Interner keyLimit offsetLimit) : Nat := interner.text.utf8ByteSize

/-- The place in the text where the string with a key starts, or the end of the text
behind the last string. -/
def startOf (interner : Interner keyLimit offsetLimit) (key : Nat) : interner.text.Pos :=
  if known : key < interner.starts.size then
    interner.text.pos ⟨interner.starts[key]⟩ (interner.aligned _ (Array.getElem_mem known))
  else
    interner.text.endPos

/-- The part of the text from one start to the next. -/
def cut (interner : Interner keyLimit offsetLimit) (key : Nat) : String :=
  interner.text.extract (interner.startOf key) (interner.startOf (key + 1))

def get (interner : Interner keyLimit offsetLimit) (key : Nat) : Except InternError String :=
  if key < interner.size then .ok (interner.cut key) else .error (.keyNotFound key)

def keysAt (interner : Interner keyLimit offsetLimit) (hash : Nat) : List Nat :=
  interner.keys.getD hash []

def lookup? (interner : Interner keyLimit offsetLimit) (string : String) : Option Nat :=
  (interner.keysAt (interner.hash string)).find? fun key =>
    (interner.get key).toOption == some string

def push (interner : Interner keyLimit offsetLimit) (string : String) :
    Interner keyLimit offsetLimit :=
  let hash := interner.hash string
  let keys := interner.size :: interner.keysAt hash
  { hash := interner.hash
    text := interner.text ++ string
    starts := interner.starts.push interner.byteSize
    keys := interner.keys.insert hash keys
    aligned := by
      intro start present
      rcases Array.mem_push.mp present with old | rfl
      · exact (interner.aligned start old).append_right string
      · exact interner.text.endPos.isValid.append_right string }

/-- The key of a string, which is stored first if it is new. The key has to fit
before the start offset is looked at. -/
def intern (interner : Interner keyLimit offsetLimit) (string : String) :
    Interner keyLimit offsetLimit × Except InternError Nat :=
  match interner.lookup? string with
  | some key => (interner, .ok key)
  | none =>
      let key := interner.size
      let offset := interner.byteSize
      if keyLimit ≤ key then
        (interner, .error (.outOfKeys key))
      else if offsetLimit ≤ offset then
        (interner, .error (.outOfKeys offset))
      else
        (interner.push string, .ok key)

end Interner

end FlowGraph
