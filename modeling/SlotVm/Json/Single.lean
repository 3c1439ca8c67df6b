import SlotVm.Json.Basic
import SlotVm.Single.Basic

/-!
# Decimal numbers as single precision

A decimal becomes a single in two steps.  Its digits make a whole number of
at most 64 bits, the significand, and a power of ten; their product is taken
in double precision, and the result is rounded to single.  Digits that no
longer fit the significand only count for the power of ten if they stand in
front of the point.

A whole number that fits 64 bits is rounded to single in one step.
-/

namespace SlotVm.Json.Number

/-- Significands lie below. -/
def significandBound : Nat := UInt64.size

/-- The significand with one more digit, if that fits. -/
def appendDigit? (significand : Nat) (c : Char) : Option Nat :=
  let s := significand * 10 + (c.toNat - '0'.toNat)
  if s < significandBound then some s else none

/-- The significand of the digits in front of the point, and how many of
them did not fit. -/
def wholePart (significand : Nat) : List Char → Nat × Nat
  | [] => (significand, 0)
  | c :: rest =>
      match appendDigit? significand c with
      | some s => wholePart s rest
      | none => (significand, rest.length + 1)

/-- The significand with the digits behind the point, and how many of them
fitted. -/
def fractionPart (significand : Nat) : List Char → Nat × Nat
  | [] => (significand, 0)
  | c :: rest =>
      match appendDigit? significand c with
      | some s =>
          let (s, taken) := fractionPart s rest
          (s, taken + 1)
      | none => (significand, 0)

/-- The written exponent: whether it is negative, and its magnitude. -/
def exponentPart : List Char → Bool × Nat
  | '-' :: digits => (true, natOfDigits digits)
  | '+' :: digits => (false, natOfDigits digits)
  | digits => (false, natOfDigits digits)

/-- Greatest power of ten that double precision holds. -/
def greatestPower : Nat := 308

/-- A power of ten in double precision. -/
def powerOfTen (n : Nat) : Float := Float.ofScientific 1 false n

/-- Divides by a power of ten, in several steps if it is too great for
one.  The fuel is enough for every significand to vanish. -/
def divideByPower (x : Float) (power : Nat) : Nat → Float
  | 0 => x
  | fuel + 1 =>
      if power ≤ greatestPower then x / powerOfTen power
      else if x == 0.0 then x
      else
        divideByPower (x / powerOfTen greatestPower) (power - greatestPower)
          fuel

/-- The product of a significand and a power of ten, unless it is out of
range. -/
def scale? (significand : Nat) (exponent : Int) : Option Float :=
  let x := (UInt64.ofNat significand).toFloat
  if exponent < 0 then
    some (divideByPower x exponent.natAbs 4)
  else if exponent.natAbs ≤ greatestPower then
    let y := x * powerOfTen exponent.natAbs
    if y.isInf then none else some y
  else if significand = 0 then some x
  else none

/-- Exponents above are not counted any more. -/
def exponentBound : Nat := 0x80000000

/-- The number in double precision, unless it is out of range. -/
def double? (n : Number) : Option Float :=
  let (significand, dropped) := wholePart 0 n.whole
  let (significand, taken) := fractionPart significand n.fraction
  let (down, written) := exponentPart n.exponent
  let magnitude :=
    if exponentBound ≤ written then
      if significand = 0 ∨ down then some 0.0 else none
    else
      let shift : Int := if down then -written else written
      scale? significand ((dropped : Int) - taken + shift)
  magnitude.map fun x => if n.negative then -x else x

/-- The number in single precision, unless double precision cannot hold
it. -/
def single? (n : Number) : Option Float32 :=
  let magnitude := natOfDigits n.whole
  if n.isWhole && magnitude < significandBound then
    if !n.negative then
      some (UInt64.ofNat magnitude).toFloat32
    else if magnitude ≤ 0x8000000000000000 then
      some (-(UInt64.ofNat magnitude).toFloat32)
    else
      some (Single.ofDouble (-(UInt64.ofNat magnitude).toFloat))
  else
    n.double?.map Single.ofDouble

end SlotVm.Json.Number
