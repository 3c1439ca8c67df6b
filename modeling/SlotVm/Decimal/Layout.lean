import SlotVm.Decimal.Shortest

/-!
# Written forms of single-precision numbers

A `Layout` is the set of decisions that one written form takes: where
positional notation ends, how the exponent is signed, which way a tie goes
and how the special values are spelled.  Three forms are in use: `printed`
by programs, `listed` in listings and diagnostics, and `stored` in the JSON
form of an image.
-/

namespace SlotVm.Decimal

/-- The decisions of one written form. -/
structure Layout where
  /-- Least exponent of the first digit that is written positionally. -/
  leastExponent : Int
  /-- Greatest exponent of the first digit that is written positionally. -/
  greatestExponent : Int
  tie : Tie
  /-- A positive exponent carries a plus sign. -/
  plusSign : Bool
  nanText : String
  infinityText : String
  negativeInfinityText : String

/-- What a program prints: positional from a millionth to below ten to the
thirteenth. -/
def Layout.printed : Layout where
  leastExponent := -6
  greatestExponent := 12
  tie := .toEven
  plusSign := false
  nanText := "NaN"
  infinityText := "Infinity"
  negativeInfinityText := "-Infinity"

/-- What a listing shows: positional from a ten-thousandth to below ten to
the sixteenth. -/
def Layout.listed : Layout where
  leastExponent := -4
  greatestExponent := 15
  tie := .up
  plusSign := false
  nanText := "NaN"
  infinityText := "inf"
  negativeInfinityText := "-inf"

/-- What the JSON form of an image holds.  JSON has no special values, so
they become `null`. -/
def Layout.stored : Layout :=
  { Layout.printed with
    plusSign := true
    nanText := "null"
    infinityText := "null"
    negativeInfinityText := "null" }

/-- Digits with a point, at least one digit on each side of it. -/
def positional (d : Digits) : List Char :=
  if d.exponent < 0 then
    '0' :: '.' :: List.replicate ((-d.exponent).toNat - 1) '0' ++ d.digits
  else
    let whole := d.exponent.toNat + 1
    let padded := d.digits ++ List.replicate (whole - d.digits.length) '0'
    let fraction := padded.drop whole
    padded.take whole ++ '.' :: (if fraction.isEmpty then ['0'] else fraction)

/-- One digit, the rest behind a point, and the exponent. -/
def scientific (plusSign : Bool) (d : Digits) : List Char :=
  let mantissa := match d.digits with
    | [] => []
    | [c] => [c]
    | c :: rest => c :: '.' :: rest
  let sign := if d.exponent < 0 then ['-'] else if plusSign then ['+'] else []
  mantissa ++ 'e' :: sign ++ Nat.toDigits 10 d.exponent.natAbs

/-- Shortest text of the positive magnitude `units`. -/
def Layout.magnitude (l : Layout) (units : Nat) : List Char :=
  let d := shortest l.tie units
  if l.leastExponent ≤ d.exponent ∧ d.exponent ≤ l.greatestExponent then
    positional d
  else
    scientific l.plusSign d

/-- The text of a quantity. -/
def Layout.viewText (l : Layout) : Single.View → String
  | .nan => l.nanText
  | .infinite negative =>
      if negative then l.negativeInfinityText else l.infinityText
  | .finite negative units =>
      let digits := if units == 0 then ['0', '.', '0'] else l.magnitude units
      String.ofList (if negative then '-' :: digits else digits)

/-- The text of a single-precision number. -/
def Layout.text (l : Layout) (x : Float32) : String :=
  l.viewText (Single.view x)

end SlotVm.Decimal
