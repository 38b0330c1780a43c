import FlowGraph.Json.Fault

/-!
Strings of JSON. Reading goes through the text character by character. In a
string that is used, an escaped surrogate has to be the first half of an escaped
pair; in one that is passed over, the halves are not looked at.
-/

namespace FlowGraph.Json

/-! ### Writing -/

def hexDigit (value : Nat) : Char :=
  if value < 10 then Char.ofNat ('0'.toNat + value) else Char.ofNat ('a'.toNat + (value - 10))

def encodeChar (char : Char) : List Char :=
  if char = '"' then ['\\', '"']
  else if char = '\\' then ['\\', '\\']
  else if char = '\x08' then ['\\', 'b']
  else if char = '\x0c' then ['\\', 'f']
  else if char = '\n' then ['\\', 'n']
  else if char = '\r' then ['\\', 'r']
  else if char = '\t' then ['\\', 't']
  else if char.toNat < 0x20 then
    ['\\', 'u', '0', '0', hexDigit (char.toNat / 16), hexDigit (char.toNat % 16)]
  else [char]

def encode (text : String) : List Char := '"' :: text.toList.flatMap encodeChar ++ ['"']

/-! ### Reading -/

def hexValue? (char : Char) : Option Nat :=
  if '0' ≤ char && char ≤ '9' then some (char.toNat - '0'.toNat)
  else if 'a' ≤ char && char ≤ 'f' then some (char.toNat - 'a'.toNat + 10)
  else if 'A' ≤ char && char ≤ 'F' then some (char.toNat - 'A'.toNat + 10)
  else none

def shortEscape? : Char → Option Char
  | '"' => some '"'
  | '\\' => some '\\'
  | '/' => some '/'
  | 'b' => some '\x08'
  | 'f' => some '\x0c'
  | 'n' => some '\n'
  | 'r' => some '\r'
  | 't' => some '\t'
  | _ => none

inductive Place where
  | plain
  | escape
  /-- Within the four digits of a code unit: how many have been read, and their
  value. The first half of a pair may have gone before. -/
  | digits (first : Option Nat) (count value : Nat)
  /-- Behind the first half of a pair. -/
  | half (first : Nat)
  /-- Behind the first half of a pair and a backslash. -/
  | halfEscape (first : Nat)

def isFirstHalf (unit : Nat) : Bool := 0xd800 ≤ unit && unit < 0xdc00

def isSecondHalf (unit : Nat) : Bool := 0xdc00 ≤ unit && unit < 0xe000

def joinHalves (first second : Nat) : Char :=
  Char.ofNat ((first - 0xd800) * 0x400 + (second - 0xdc00) + 0x10000)

/-- What a complete code unit comes to: a place and, unless it is the first half
of a pair, a character. -/
def finishUnit (paired : Bool) (first : Option Nat) (unit : Nat) :
    Except Fault (Place × Option Char) :=
  match paired, first with
  | false, _ => .ok (.plain, some (Char.ofNat unit))
  | true, none =>
      if isSecondHalf unit then .error .malformed
      else if isFirstHalf unit then .ok (.half unit, none)
      else .ok (.plain, some (Char.ofNat unit))
  | true, some first =>
      if isSecondHalf unit then .ok (.plain, some (joinHalves first unit)) else .error .malformed

/-- The fault of a code unit that has a wrong digit behind the given number of
right ones: too short a text ends within the four bytes of the digits. -/
def digitFault (count : Nat) (text : List Char) : Fault :=
  if count + (String.ofList (text.take 4)).utf8ByteSize < 4 then .endOfText else .malformed

/-- Reads a string from a place in it to its closing quote. The characters read
before are given in reverse. -/
def readQuoted (paired : Bool) (place : Place) (read : List Char) : Reader String
  | [] => .error .endOfText
  | char :: text =>
      match place with
      | .plain =>
          if char = '"' then .ok (String.ofList read.reverse, text)
          else if char = '\\' then readQuoted paired .escape read text
          else if char.toNat < 0x20 then .error .malformed
          else readQuoted paired .plain (char :: read) text
      | .escape =>
          if char = 'u' then readQuoted paired (.digits none 0 0) read text
          else
            match shortEscape? char with
            | some escaped => readQuoted paired .plain (escaped :: read) text
            | none => .error .malformed
      | .digits first count value =>
          match hexValue? char with
          | none => .error (digitFault count (char :: text))
          | some digit =>
              if count < 3 then
                readQuoted paired (.digits first (count + 1) (value * 16 + digit)) read text
              else
                match finishUnit paired first (value * 16 + digit) with
                | .error fault => .error fault
                | .ok (place, done) => readQuoted paired place (done.toList ++ read) text
      | .half first =>
          if char = '\\' then readQuoted paired (.halfEscape first) read text
          else .error .malformed
      | .halfEscape first =>
          if char = 'u' then readQuoted paired (.digits (some first) 0 0) read text
          else .error .malformed

def readString : Reader String := readQuoted true .plain []

def skipString (text : List Char) : Except Fault (List Char) :=
  (readQuoted false .plain [] text).map Prod.snd

end FlowGraph.Json
