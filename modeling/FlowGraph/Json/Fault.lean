import FlowGraph.Decimal.Shortest
import FlowGraph.Text.Quoted

/-!
What can be wrong with a text that is read as JSON of a given shape. Reading goes
through the text once, so the first thing wrong decides.
-/

namespace FlowGraph.Json

/-- A value found where one of another kind is wanted. -/
inductive Found where
  | null
  | boolean (value : Bool)
  | integer (value : Int)
  /-- A number that is no integer of 64 bits, as the bits of a double. -/
  | decimal (bits : UInt64)
  | text (value : String)
  | array
  | object
  deriving DecidableEq

def Found.describe : Found → String
  | .null => "null"
  | .boolean value => "boolean \x60" ++ toString value ++ "\x60"
  | .integer value => "integer \x60" ++ toString value ++ "\x60"
  | .decimal bits => "floating point \x60" ++ Decimal.text bits ++ "\x60"
  | .text value => "string " ++ Text.quoted value
  | .array => "sequence"
  | .object => "map"

inductive ShapeError where
  | invalidType (found : Found) (expected : String)
  /-- An array is too short for the record that it stands for. -/
  | invalidLength (length : Nat) (expected : String)
  | missingField (name : String)
  | duplicateField (name : String)
  deriving DecidableEq

def ShapeError.message : ShapeError → String
  | .invalidType found expected => "invalid type: " ++ found.describe ++ ", expected " ++ expected
  | .invalidLength length expected =>
      "invalid length " ++ toString length ++ ", expected " ++ expected
  | .missingField name => "missing field \x60" ++ name ++ "\x60"
  | .duplicateField name => "duplicate field \x60" ++ name ++ "\x60"

inductive Fault where
  | endOfText
  | malformed
  /-- The text is JSON so far, but not of the shape that is wanted. -/
  | shape (error : ShapeError)
  deriving DecidableEq

/-- A way to read a value off the beginning of a text. -/
abbrev Reader (Value : Type) : Type := List Char → Except Fault (Value × List Char)

/-- The fault of a text that goes on in a way that JSON does not. -/
def faultAt : List Char → Fault
  | [] => .endOfText
  | _ :: _ => .malformed

def isBlank (char : Char) : Bool := char = ' ' || char = '\n' || char = '\t' || char = '\r'

def skipBlanks (text : List Char) : List Char := text.dropWhile isBlank

def skipWord : List Char → List Char → Except Fault (List Char)
  | [], text => .ok text
  | _ :: _, [] => .error .endOfText
  | wanted :: word, char :: text =>
      if char = wanted then skipWord word text else .error .malformed

end FlowGraph.Json
