/-!
The shortest decimal text of a binary floating point number: the fewest digits
that are nearer to the number than to any other one, and among those the nearest.

A number is `significand * 2 ^ exponent`; the reals that round to it reach half a
step up and half a step down, where the step down is the smaller one at a power
of two. The ends of this interval belong to it if the significand is even.
-/

namespace FlowGraph.Decimal

/-- A positive floating point number together with what rounds to it. -/
structure Binary where
  significand : Nat
  exponent : Int
  /-- Whether the next number below is nearer than the next one above. -/
  nearerBelow : Bool

def Binary.ofBits (bits : UInt64) : Binary :=
  let fraction := (bits &&& 0xfffffffffffff).toNat
  let biased := (bits >>> 52 &&& 0x7ff).toNat
  if biased = 0 then
    { significand := fraction, exponent := -1074, nearerBelow := false }
  else
    { significand := fraction + 0x10000000000000
      exponent := Int.ofNat biased - 1075
      nearerBelow := fraction = 0 && 1 < biased }

structure Digits where
  digits : Nat
  exponent : Int

namespace Binary

/-- The number in quarter steps times a power of two, as a fraction. -/
def denominator (binary : Binary) : Nat := Nat.pow 2 (2 - binary.exponent).toNat

/-- The value of a count of quarter steps over the denominator. -/
def quarters (binary : Binary) (count : Nat) : Nat :=
  count * Nat.pow 2 (binary.exponent - 2).toNat

def value (binary : Binary) : Nat := binary.quarters (4 * binary.significand)

def upper (binary : Binary) : Nat := binary.quarters (4 * binary.significand + 2)

def lower (binary : Binary) : Nat :=
  binary.quarters (4 * binary.significand - if binary.nearerBelow then 1 else 2)

/-- Whether a fraction rounds to the number. -/
def covers (binary : Binary) (numerator denominator : Nat) : Bool :=
  let scaled := numerator * binary.denominator
  let lower := binary.lower * denominator
  let upper := binary.upper * denominator
  if binary.significand % 2 = 0 then lower ≤ scaled && scaled ≤ upper
  else lower < scaled && scaled < upper

/-- How many digits the number has before its point; not positive if it is below
one tenth. -/
def magnitude (binary : Binary) : Int :=
  Int.ofNat (Nat.toDigits 10 (binary.value * Nat.pow 10 400 / binary.denominator)).length - 400

def fraction (digits : Nat) (exponent : Int) : Nat × Nat :=
  (digits * Nat.pow 10 exponent.toNat, Nat.pow 10 (-exponent).toNat)

/-- The decimal of a given exponent next to the number that rounds to it, if any
does. Of two the nearer one is taken, and the even one of two equally near. -/
def neighbour? (binary : Binary) (exponent : Int) : Option Digits :=
  let unit := fraction 1 exponent
  let steps := binary.value * unit.2
  let step := binary.denominator * unit.1
  let below := steps / step
  let rest := steps % step
  let fits (digits : Nat) : Bool :=
    let number := fraction digits exponent
    binary.covers number.1 number.2
  let preferAbove := step < 2 * rest || (step = 2 * rest && below % 2 = 1)
  match fits below && 0 < below, fits (below + 1) with
  | true, true => some ⟨if preferAbove then below + 1 else below, exponent⟩
  | true, false => some ⟨below, exponent⟩
  | false, true => some ⟨below + 1, exponent⟩
  | false, false => none

/-- The first decimal found when the number of digits grows to seventeen. -/
def shortest (binary : Binary) : Digits :=
  let grids := (List.range 17).map fun count => binary.magnitude - Int.ofNat (count + 1)
  (grids.findSome? binary.neighbour?).getD ⟨0, 0⟩

end Binary

def isNegative (bits : UInt64) : Bool := bits >>> 63 = 1

def isZero (bits : UInt64) : Bool := bits <<< 1 = 0

/-! ### Text -/

/-- The digits of a decimal without zeros at the end, and how many of them stand
before the point. -/
def positions (decimal : Digits) : List Char × Int :=
  let digits := Nat.toDigits 10 decimal.digits
  ((digits.reverse.dropWhile (· = '0')).reverse, Int.ofNat digits.length + decimal.exponent)

/-- A power of ten behind the digits. The exponent always has a sign. -/
def powerText (exponent : Int) : List Char :=
  let sign := if exponent < 0 then '-' else '+'
  'e' :: sign :: Nat.toDigits 10 exponent.natAbs

/-- Up to sixteen digits before the point and up to four zeros behind it are
written out; otherwise one digit stands before the point and a power of ten
follows. There is always a digit behind a written point, and a number that is
written out always has a point. -/
def magnitudeText (decimal : Digits) : List Char :=
  let (digits, point) := positions decimal
  if 0 < point && point ≤ 16 then
    let places := point.toNat
    if digits.length ≤ places then
      digits ++ List.replicate (places - digits.length) '0' ++ ['.', '0']
    else
      digits.take places ++ ['.'] ++ digits.drop places
  else if -5 < point && point ≤ 0 then
    ['0', '.'] ++ List.replicate (-point).toNat '0' ++ digits
  else
    let tail := digits.drop 1
    let mantissa := if tail.isEmpty then digits else digits.take 1 ++ ['.'] ++ tail
    mantissa ++ powerText (point - 1)

def text (bits : UInt64) : String :=
  let magnitude :=
    if isZero bits then ['0', '.', '0'] else magnitudeText (Binary.ofBits bits).shortest
  String.ofList (if isNegative bits then '-' :: magnitude else magnitude)

end FlowGraph.Decimal
