import SlotVm.Single.Basic

/-!
# The fewest digits that read back

Every decimal inside the rounding interval of a single reads back as that
single.  `shortest` finds the least number of digits with which a decimal
lies in the interval, and of two such decimals the nearer one.

All of it is exact.  A quarter of the smallest unit is `2 ^ -151`, which is
`5 ^ 151` times `10 ^ -151`, so the interval's ends are natural numbers of
the decimal unit `10 ^ -151`, and a decimal with `n` digits is a multiple of
a power of ten of them.
-/

namespace SlotVm.Decimal

/-- The decimal `d.ddd × 10 ^ exponent` with the given digits.  The first
and the last digit are not zero. -/
structure Digits where
  digits : List Char
  exponent : Int
deriving DecidableEq

/-- Which of two equally near decimals is taken. -/
inductive Tie where
  /-- The one whose last digit is even. -/
  | toEven
  /-- The greater one. -/
  | up
deriving DecidableEq

/-- The decimals that read back as one number, in units of `10 ^ -scale`. -/
structure Interval where
  scale : Nat
  low : Nat
  value : Nat
  high : Nat
  /-- The ends belong to the interval. -/
  closed : Bool

/-- The numbers that round to the magnitude `units`.  Above a power of two
the numbers lie twice as far apart as below it. -/
def Interval.ofUnits (units : Nat) : Interval :=
  let s := Single.shift units
  let step := 1 <<< s
  let below := if s != 0 && units == 1 <<< (s + 23) then step else 2 * step
  { scale := 151
    low := (4 * units - below) * Nat.pow 5 151
    value := 4 * units * Nat.pow 5 151
    high := (4 * units + 2 * step) * Nat.pow 5 151
    closed := units / step % 2 == 0 }

/-- The interval holds the decimal `d`. -/
def Interval.contains (i : Interval) (d : Nat) : Bool :=
  if i.closed then i.low ≤ d && d ≤ i.high else i.low < d && d < i.high

/-- The multiple of `unit` in the interval that is nearest to its value,
as a count of units. -/
def Interval.nearestMultiple? (i : Interval) (tie : Tie) (unit : Nat) :
    Option Nat :=
  let k := i.value / unit
  let down := i.value - k * unit
  let up := (k + 1) * unit - i.value
  match i.contains (k * unit), i.contains ((k + 1) * unit) with
  | false, false => none
  | true, false => some k
  | false, true => some (k + 1)
  | true, true =>
      if down < up then some k
      else if up < down then some (k + 1)
      else match tie with
        | .toEven => some (if k % 2 == 0 then k else k + 1)
        | .up => some (k + 1)

/-- The number `k * 10 ^ place`, written without trailing zeros. -/
def Digits.ofMultiple (k : Nat) (place : Int) : Digits :=
  let all := Nat.toDigits 10 k
  { digits := (all.reverse.dropWhile (· == '0')).reverse
    exponent := place + (all.length - 1 : Nat) }

/-- Looks for a decimal on ever finer grids, `10 ^ place` apart.  The grid
with place zero holds the value itself. -/
def Interval.shortestFrom (i : Interval) (tie : Tie) : Nat → Digits
  | 0 => Digits.ofMultiple i.value (-i.scale)
  | place + 1 =>
      match i.nearestMultiple? tie (Nat.pow 10 (place + 1)) with
      | some k => Digits.ofMultiple k ((place + 1 : Nat) - i.scale)
      | none => i.shortestFrom tie place

/-- The shortest decimal that reads back as the positive magnitude
`units`. -/
def shortest (tie : Tie) (units : Nat) : Digits :=
  let i := Interval.ofUnits units
  i.shortestFrom tie ((Nat.toDigits 10 i.value).length - 1)

end SlotVm.Decimal
