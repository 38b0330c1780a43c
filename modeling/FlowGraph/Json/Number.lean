import FlowGraph.Json.Fault

/-!
Numbers of JSON. A number that is looked at is an integer of 64 bits or a double;
one that is passed over only has to be well-formed.

A double is made of the digits that fit 64 bits and a power of ten, by one
rounded multiplication or division.
-/

namespace FlowGraph.Json

def startsWithDigit : List Char → Bool
  | [] => false
  | char :: _ => char.isDigit

def digitValue (char : Char) : Nat := char.toNat - '0'.toNat

def spanDigits (text : List Char) : List Char × List Char :=
  (text.takeWhile Char.isDigit, text.dropWhile Char.isDigit)

/-- Appends digits to a number as long as it stays below 2^64; what is left of
the digits begins at the first one that does not fit. -/
def appendDigits (value : Nat) : List Char → Nat × List Char
  | [] => (value, [])
  | digit :: digits =>
      let next := value * 10 + digitValue digit
      if next < UInt64.size then appendDigits next digits else (value, digit :: digits)

/-! ### Doubles -/

def powerOfTen (exponent : Nat) : Float := Float.ofScientific 1 false exponent

/-- Digits times a negative power of ten. A number this small loses its last bit
in two steps at the latest. -/
def scaleDown (value : Float) (exponent : Nat) : Float :=
  if exponent ≤ 308 then value / powerOfTen exponent
  else if exponent ≤ 616 then value / powerOfTen 308 / powerOfTen (exponent - 308)
  else 0

/-- Digits times a power of ten; nothing if no double is that large. -/
def scale? (significand : Nat) (exponent : Int) : Option Float :=
  let value := significand.toUInt64.toFloat
  if exponent < 0 then
    some (scaleDown value (-exponent).toNat)
  else if exponent ≤ 308 then
    let scaled := value * powerOfTen exponent.toNat
    if scaled.isInf then none else some scaled
  else if significand = 0 then
    some 0
  else
    none

def signed (negative : Bool) (value : Float) : Found :=
  .decimal (if negative then -value else value).toBits

def decimalOf (negative : Bool) (significand : Nat) (exponent : Int) : Except Fault Found :=
  match scale? significand exponent with
  | some value => .ok (signed negative value)
  | none => .error .malformed

def exponentLimit : Nat := 2147483648

def readExponent (negative : Bool) (significand : Nat) (exponent : Int) : Reader Found :=
  fun text =>
    let (down, text) :=
      match text with
      | '-' :: text => (true, text)
      | '+' :: text => (false, text)
      | _ => (false, text)
    let (digits, rest) := spanDigits text
    if digits.isEmpty then
      .error (faultAt text)
    else
      let shift := digits.foldl (fun value digit => value * 10 + digitValue digit) 0
      if shift < exponentLimit then
        let exponent := if down then exponent - Int.ofNat shift else exponent + Int.ofNat shift
        (decimalOf negative significand exponent).map fun found => (found, rest)
      else if significand ≠ 0 && !down then
        .error .malformed
      else
        .ok (signed negative 0, rest)

def readScale (negative : Bool) (significand : Nat) (exponent : Int) : Reader Found
  | 'e' :: text => readExponent negative significand exponent text
  | 'E' :: text => readExponent negative significand exponent text
  | text => (decimalOf negative significand exponent).map fun found => (found, text)

/-- Reads the digits behind a point. Those that do not fit any more are dropped. -/
def readFraction (negative : Bool) (significand : Nat) (exponent : Int) : Reader Found :=
  fun text =>
    let (digits, rest) := spanDigits text
    if digits.isEmpty then
      .error (faultAt text)
    else
      let (significand, dropped) := appendDigits significand digits
      let places := digits.length - dropped.length
      readScale negative significand (exponent - Int.ofNat places) rest

def greatestMagnitude : Nat := 9223372036854775808

/-- The value of an integer that fits 64 bits. Minus zero, and what is below the
least signed number, are doubles. -/
def integerOf (negative : Bool) (value : Nat) : Found :=
  if !negative then .integer value
  else if 0 < value && value ≤ greatestMagnitude then .integer (-Int.ofNat value)
  else signed true value.toUInt64.toFloat

/-- Reads what follows the digits before the point. The digits that do not fit
count as powers of ten. -/
def readTail (negative : Bool) (digits : List Char) : Reader Found := fun text =>
  let (significand, dropped) := appendDigits 0 digits
  let exponent := Int.ofNat dropped.length
  match text with
  | '.' :: text => readFraction negative significand exponent text
  | 'e' :: text => readExponent negative significand exponent text
  | 'E' :: text => readExponent negative significand exponent text
  | text =>
      if dropped.isEmpty then .ok (integerOf negative significand, text)
      else (decimalOf negative significand exponent).map fun found => (found, text)

/-- Reads a number, from behind its sign. There are no zeros before other digits. -/
def readNumber (negative : Bool) : Reader Found := fun text =>
  match text with
  | '0' :: rest =>
      if startsWithDigit rest then .error .malformed else readTail negative ['0'] rest
  | _ =>
      let (digits, rest) := spanDigits text
      if digits.isEmpty then .error (faultAt text) else readTail negative digits rest

/-! ### Numbers that are passed over -/

def skipDigits (text : List Char) : Except Fault (List Char) :=
  let (digits, rest) := spanDigits text
  if digits.isEmpty then .error .malformed else .ok rest

def skipExponent : List Char → Except Fault (List Char)
  | char :: text =>
      if char = 'e' || char = 'E' then
        match text with
        | '+' :: text => skipDigits text
        | '-' :: text => skipDigits text
        | text => skipDigits text
      else
        .ok (char :: text)
  | [] => .ok []

/-- Passes over a number, from behind its sign. A number that breaks off is
malformed even at the end of the text. -/
def skipNumber (text : List Char) : Except Fault (List Char) := do
  let rest ←
    match text with
    | '0' :: rest => if startsWithDigit rest then .error .malformed else .ok rest
    | _ => skipDigits text
  match rest with
  | '.' :: rest => do
      let rest ← skipDigits rest
      skipExponent rest
  | rest => skipExponent rest

end FlowGraph.Json
