import FlowGraph.Json.Number
import FlowGraph.Json.Quoted

/-!
Passing over a value of any kind. The brackets that are open are kept in a list,
so the depth of a value is not limited.
-/

namespace FlowGraph.Json

inductive Bracket where
  | array
  | object
  deriving DecidableEq

def Bracket.close : Bracket → Char
  | .array => ']'
  | .object => '\x7d'

inductive Expectation where
  | value
  | firstEntry
  /-- A further entry behind a comma, or the end of the bracket. -/
  | nextEntry
  deriving DecidableEq

def skipKey (text : List Char) : Except Fault (List Char) :=
  match skipBlanks text with
  | '"' :: text => do
      let text ← skipString text
      match skipBlanks text with
      | ':' :: text => .ok text
      | text => .error (faultAt text)
  | text => .error (faultAt text)

/-- Passes over the key of an entry, which only an object has. -/
def skipEntryKey (bracket : Bracket) (text : List Char) : Except Fault (List Char) :=
  match bracket with
  | .array => .ok text
  | .object => skipKey text

def skipScalar : List Char → Except Fault (List Char)
  | 'n' :: text => skipWord ['u', 'l', 'l'] text
  | 't' :: text => skipWord ['r', 'u', 'e'] text
  | 'f' :: text => skipWord ['a', 'l', 's', 'e'] text
  | '-' :: text => skipNumber text
  | '"' :: text => skipString text
  | char :: text => if char.isDigit then skipNumber (char :: text) else .error .malformed
  | [] => .error .endOfText

/-- Passes over the rest of a value within open brackets, in at most the given
number of steps; each step takes at least one character. -/
def skipWithin : Nat → List Bracket → Expectation → List Char → Except Fault (List Char)
  | 0, _, _, _ => .error .malformed
  | steps + 1, brackets, .value, text =>
      match skipBlanks text with
      | '[' :: text => skipWithin steps (.array :: brackets) .firstEntry text
      | '\x7b' :: text => skipWithin steps (.object :: brackets) .firstEntry text
      | text => do
          let text ← skipScalar text
          match brackets with
          | [] => .ok text
          | brackets => skipWithin steps brackets .nextEntry text
  | _ + 1, [], _, text => .ok text
  | steps + 1, bracket :: brackets, expectation, text =>
      match skipBlanks text with
      | [] => .error .endOfText
      | char :: rest =>
          if char = bracket.close then
            match brackets with
            | [] => .ok rest
            | brackets => skipWithin steps brackets .nextEntry rest
          else if expectation = .firstEntry then do
            let text ← skipEntryKey bracket (char :: rest)
            skipWithin steps (bracket :: brackets) .value text
          else if char = ',' then do
            let text ← skipEntryKey bracket rest
            skipWithin steps (bracket :: brackets) .value text
          else
            .error .malformed

def skipValue (text : List Char) : Except Fault (List Char) :=
  skipWithin (2 * text.length + 1) [] .value text

end FlowGraph.Json
