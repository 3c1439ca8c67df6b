/-!
# Single-precision numbers, exactly

A finite single is a whole multiple of the smallest one, `2 ^ -149`, with a
sign.  `view` takes a single apart in this way and `ofUnits` puts one
together, so that operations which have an exact result are operations on
natural numbers.

`rem` is the remainder of the division that truncates: it has the sign of
the first operand and a smaller magnitude than the second.
-/

namespace SlotVm.Single

/-- A single-precision number as the quantity it stands for. -/
inductive View where
  | nan
  | infinite (negative : Bool)
  /-- The magnitude is `units * 2 ^ -149`. -/
  | finite (negative : Bool) (units : Nat)
deriving DecidableEq

/-- Bits of the significand, the leading one included. -/
def precision : Nat := 24

/-- How far the significand of a magnitude stands to the left of the
smallest unit. -/
def shift (units : Nat) : Nat := units.log2 + 1 - precision

/-- The quantity that a bit pattern stands for. -/
def viewBits (bits : UInt32) : View :=
  let negative := bits.toNat >>> 31 == 1
  let exponent := (bits.toNat >>> 23) % 0x100
  let fraction := bits.toNat % 0x800000
  if exponent == 255 then
    if fraction == 0 then .infinite negative else .nan
  else if exponent == 0 then .finite negative fraction
  else .finite negative ((0x800000 + fraction) <<< (exponent - 1))

/-- The quantity that a single stands for. -/
def view (x : Float32) : View := viewBits x.toBits

/-- The bit pattern of a magnitude that needs at most 24 significant bits
and is below the infinite. -/
def bitsOfUnits (negative : Bool) (units : Nat) : UInt32 :=
  let s := shift units
  -- the leading one of a normal number adds one to the exponent field
  UInt32.ofNat
    ((if negative then 0x80000000 else 0) + (s <<< 23) + (units >>> s))

/-- The single of a magnitude that needs at most 24 significant bits. -/
def ofUnits (negative : Bool) (units : Nat) : Float32 :=
  Float32.ofBits (bitsOfUnits negative units)

/-- The quiet not-a-number. -/
def nan : Float32 := Float32.ofBits 0x7fc00000

/-- The nearest single of a double; of two that are equally near, the one
whose last bit is zero. -/
def ofDouble (x : Float) : Float32 :=
  let rounded : Float.Model.UnpackedFloat :=
    match Float.Model.UnpackedFloat.unpack .binary64 x.toBits.toBitVec with
    | .finite sign mantissa exponent _ =>
        .round .binary32 sign mantissa exponent
    | special => special
  Float32.ofBits (Float32.Model.pack rounded).toBits

/-- Remainder of the truncating division. -/
def rem (x y : Float32) : Float32 :=
  match view x, view y with
  | .finite negative a, .finite _ b =>
      if b == 0 then nan else ofUnits negative (a % b)
  | .finite .., .infinite _ => x
  | _, _ => nan

/-- The whole part, cut to the range `low` to `high`; zero for what is not a
number. -/
def truncate (low high : Int32) (x : Float32) : Int32 :=
  match view x with
  | .nan => 0
  | .infinite negative => if negative then low else high
  | .finite negative units =>
      let whole : Int := (units >>> 149 : Nat)
      let n := if negative then -whole else whole
      Int32.ofInt (max low.toInt (min high.toInt n))

/-- Three-way comparison; `unordered` when one side is not a number. -/
def compare (x y : Float32) (unordered : Int32) : Int32 :=
  if x < y then -1 else if x == y then 0 else if y < x then 1 else unordered

end SlotVm.Single
