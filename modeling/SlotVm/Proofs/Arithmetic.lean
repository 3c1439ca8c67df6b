import Mathlib.Data.Int.ModEq
import SlotVm.Machine.Arithmetic
import SlotVm.Proofs.Integers

/-!
# Exact arithmetic

The instructions compute in 32 bits and wrap the result to the width of the
machine.  `IntOp.exact` is the number that an operation stands for, without
any bound, and `Width.Represents` says which integer of the width stands for a
number: the only one that is congruent to it.  The statements of this module
put the two together, so that nothing is lost by computing in 32 bits first.

* Whatever is congruent before it is wrapped is represented afterwards
  (`Width.represents_wrap`), and a number of the width represents itself
  (`Width.Represents.eq_of_mem`).
* A result of 32 bits is congruent to the exact one also modulo the smaller
  power of two (`Width.modEq_of_bmod`).
* Each operation is congruent to the exact one (`IntOp.apply_modEq`).  A shift
  distance counts by its lowest five bits only (`toInt_and_shiftMask`), and the
  bitwise operations do not mix bits, so they can be cut before or after.
* Of all quotients of two integers of a width only one is no integer of it
  (`Width.tdiv_mem_iff`).
-/

namespace SlotVm

variable {w : Width} {a b n r : Int32} {x y : Int}

/-! ## Integers that represent numbers -/

/-- Of the integers of the width, `r` is the one that is congruent to `x`. -/
def Width.Represents (w : Width) (x : Int) (r : Int32) : Prop :=
  ∀ n : Int32, n = r ↔ w.InRange n ∧ n.toInt ≡ x [ZMOD 2 ^ w.valueBits]

theorem Width.intCount_eq_pow (w : Width) :
    (w.intCount : Int) = 2 ^ w.valueBits := by
  cases w <;> rfl

/-- Every 32-bit number is congruent to one of the width. -/
theorem Width.represents_wrap (h : n.toInt ≡ x [ZMOD 2 ^ w.valueBits]) :
    w.Represents x (w.wrap n) := by
  have hcount := w.intCount_eq_pow
  have hwrap : (w.wrap n).toInt ≡ n.toInt [ZMOD 2 ^ w.valueBits] := by
    rw [toInt_wrap, ← hcount]
    exact Int.bmod_emod
  intro k
  constructor
  · rintro rfl
    exact ⟨w.inRange_wrap n, hwrap.trans h⟩
  · rintro ⟨hrange, hk⟩
    -- Two integers of the width that are congruent are the same.
    have hsame := Width.bmod_of_inRange hrange
    have hresidue : k.toInt % w.intCount = n.toInt % w.intCount := by
      rw [hcount]
      exact hk.trans h.symm
    apply Int32.toInt_inj.1
    rw [toInt_wrap, ← hsame, ← Int.emod_bmod, hresidue, Int.emod_bmod]

/-- A number of the width represents itself. -/
theorem Width.Represents.eq_of_mem (h : w.Represents x r)
    (hlo : w.minInt.toInt ≤ x) (hhi : x ≤ w.maxInt.toInt) : r.toInt = x := by
  have hmin := w.minInt.le_toInt
  have hmax := w.maxInt.toInt_lt
  have hx : (Int32.ofInt x).toInt = x :=
    Int32.toInt_ofInt_of_le (by omega) (by omega)
  have hr := (h (Int32.ofInt x)).2 ⟨by unfold InRange; omega, by rw [hx]⟩
  rw [← hr, hx]

theorem Width.Represents.inRange (h : w.Represents x r) : w.InRange r :=
  ((h r).1 rfl).1

/-- A 32-bit number is congruent to what has been cut to 32 bits. -/
theorem Width.modEq_of_bmod (w : Width) (x : Int) :
    x.bmod (2 ^ 32) ≡ x [ZMOD 2 ^ w.valueBits] := by
  have hdvd : (2 ^ w.valueBits : Int) ∣ ((2 ^ 32 : Nat) : Int) := by
    cases w <;> decide
  have hmod : x.bmod (2 ^ 32) ≡ x [ZMOD ((2 ^ 32 : Nat) : Int)] := Int.bmod_emod
  exact hmod.of_dvd hdvd

/-! ## Bits -/

/-- The number whose bits are the lowest ones of `x` in two's complement, as
many as an integer of the width has. -/
def Width.residue (w : Width) (x : Int) : Nat := (x % 2 ^ w.valueBits).toNat

/-- The number that an operation stands for.  The bitwise operations are those
on the bits of the width. -/
def IntOp.exact (w : Width) (op : IntOp) (a b : Int) : Int :=
  match op with
  | add => a + b
  | sub => a - b
  | mul => a * b
  | shl => a * 2 ^ (b % 32).toNat
  | shr => a / 2 ^ (b % 32).toNat
  | ushr => a % 2 ^ w.valueBits / 2 ^ (b % 32).toNat
  | and => (w.residue a &&& w.residue b : Nat)
  | or => (w.residue a ||| w.residue b : Nat)
  | xor => (w.residue a ^^^ w.residue b : Nat)

theorem Width.pow_pos (w : Width) : (0 : Int) < 2 ^ w.valueBits := by
  cases w <;> decide

theorem Width.natCast_residue (w : Width) (x : Int) :
    (w.residue x : Int) = x % 2 ^ w.valueBits :=
  Int.toNat_of_nonneg (Int.emod_nonneg x (Int.ne_of_gt w.pow_pos))

/-- The 32 bits of a number are congruent to it. -/
theorem Width.toNat_modEq (w : Width) (a : Int32) :
    (a.toBitVec.toNat : Int) ≡ a.toInt [ZMOD 2 ^ w.valueBits] := by
  rw [← Int32.toInt_toBitVec, BitVec.toInt_eq_toNat_bmod]
  exact (w.modEq_of_bmod _).symm

/-- The lowest bits of a number of 32 bits. -/
theorem Width.residue_toInt (w : Width) (a : Int32) :
    w.residue a.toInt = a.toBitVec.toNat % 2 ^ w.valueBits := by
  apply Int.natCast_inj.1
  rw [w.natCast_residue, Int.natCast_emod, Int.natCast_pow]
  exact (w.toNat_modEq a).symm

/-- What is computed bit by bit can be cut afterwards. -/
theorem Width.modEq_of_bits {f : Nat → Nat → Nat}
    (hf : ∀ m n k, f m n % 2 ^ k = f (m % 2 ^ k) (n % 2 ^ k))
    (h : r.toBitVec.toNat = f a.toBitVec.toNat b.toBitVec.toNat) :
    r.toInt ≡ (f (w.residue a.toInt) (w.residue b.toInt) : Nat)
      [ZMOD 2 ^ w.valueBits] := by
  apply (w.toNat_modEq r).symm.trans
  rw [h, w.residue_toInt, w.residue_toInt, ← hf, Int.natCast_emod,
    Int.natCast_pow]
  exact (Int.mod_modEq _ _).symm

/-! ## Shifts -/

/-- The bits of a shift distance that count. -/
theorem toNat_and_shiftMask (b : Int32) :
    (b &&& shiftMask).toBitVec.toNat = (b.toInt % 32).toNat := by
  have hmask : shiftMask.toBitVec.toNat = 2 ^ 5 - 1 := rfl
  have hmod : b.toInt ≡ b.toBitVec.toNat [ZMOD 32] := by
    rw [← Int32.toInt_toBitVec, BitVec.toInt_eq_toNat_bmod]
    exact Int.ModEq.of_dvd (by decide) Int.bmod_emod
  rw [Int32.toBitVec_and, BitVec.toNat_and, hmask,
    Nat.and_two_pow_sub_one_eq_mod, hmod]
  omega

theorem toInt_and_shiftMask (b : Int32) :
    (b &&& shiftMask).toInt = b.toInt % 32 := by
  have hbits := toNat_and_shiftMask b
  have hlt := Int.emod_lt_of_pos b.toInt (b := 32) (by decide)
  have hnonneg := Int.emod_nonneg b.toInt (b := 32) (by decide)
  rw [← Int32.toInt_toBitVec, BitVec.toInt_eq_toNat_of_lt (by omega)]
  omega

/-- The distance of a shift is taken modulo 32 once more, which does nothing. -/
theorem smod_and_shiftMask (b : Int32) :
    (b &&& shiftMask).toBitVec.smod 32 = (b &&& shiftMask).toBitVec := by
  have hlt := Int.emod_lt_of_pos b.toInt (b := 32) (by decide)
  have hnonneg := Int.emod_nonneg b.toInt (b := 32) (by decide)
  have hwidth : (32 : BitVec 32).toInt = 32 := rfl
  apply BitVec.eq_of_toInt_eq
  rw [BitVec.toInt_smod, Int32.toInt_toBitVec, toInt_and_shiftMask, hwidth]
  exact Int.fmod_eq_of_lt hnonneg hlt

theorem shl_modEq (w : Width) (a b : Int32) :
    (a <<< (b &&& shiftMask)).toInt ≡ a.toInt * 2 ^ (b.toInt % 32).toNat
      [ZMOD 2 ^ w.valueBits] := by
  rw [← Int32.toInt_toBitVec, Int32.toBitVec_shiftLeft, smod_and_shiftMask,
    BitVec.shiftLeft_eq', toNat_and_shiftMask, BitVec.toInt_shiftLeft]
  apply (w.modEq_of_bmod _).trans
  rw [Nat.shiftLeft_eq, Int.natCast_mul, Int.natCast_pow]
  exact (w.toNat_modEq a).mul_right _

/-- A signed shift to the right rounds down. -/
theorem toInt_shr (a b : Int32) :
    (a >>> (b &&& shiftMask)).toInt = a.toInt / 2 ^ (b.toInt % 32).toNat := by
  rw [← Int32.toInt_toBitVec, Int32.toBitVec_shiftRight, smod_and_shiftMask,
    BitVec.toInt_sshiftRight', toNat_and_shiftMask, Int32.toInt_toBitVec,
    Int.shiftRight_eq_div_pow, Int.natCast_pow]
  rfl

/-- So does an unsigned one, of the bits of the width. -/
theorem toInt_ushr (w : Width) (a b : Int32) :
    (w.shiftRightUnsigned a b).toInt =
      a.toInt % 2 ^ w.valueBits / 2 ^ (b.toInt % 32).toNat := by
  have hbits : a.toUInt32.toNat % w.intCount = w.residue a.toInt := by
    have hcount : w.intCount = 2 ^ w.valueBits := by
      rw [w.intCount_eq, Nat.one_shiftLeft]
    rw [hcount, w.residue_toInt]
    rfl
  have hsmall : w.residue a.toInt < 2147483648 := by
    have hlt := Nat.mod_lt a.toUInt32.toNat w.intCount_pos
    have hle : w.intCount ≤ 2147483648 := by cases w <;> decide
    omega
  have hle := Nat.shiftRight_le (w.residue a.toInt) (b.toInt % 32).toNat
  have hdistance : (b &&& shiftMask).toInt.toNat = (b.toInt % 32).toNat := by
    rw [toInt_and_shiftMask]
  unfold Width.shiftRightUnsigned
  simp only [hbits, hdistance]
  rw [toInt_ofNat_of_small (by omega), Nat.shiftRight_eq_div_pow,
    Int.natCast_ediv, w.natCast_residue, Int.natCast_pow]
  rfl

/-! ## The operations -/

/-- What an operation computes in 32 bits is congruent to the exact result. -/
theorem IntOp.apply_modEq (w : Width) (op : IntOp) (a b : Int32) :
    (op.apply w a b).toInt ≡ op.exact w a.toInt b.toInt
      [ZMOD 2 ^ w.valueBits] := by
  cases op with
  | add =>
    rw [apply, Int32.toInt_add]
    exact w.modEq_of_bmod _
  | sub =>
    rw [apply, Int32.toInt_sub]
    exact w.modEq_of_bmod _
  | mul =>
    rw [apply, Int32.toInt_mul]
    exact w.modEq_of_bmod _
  | shl => exact shl_modEq w a b
  | shr =>
    rw [apply, toInt_shr]
    rfl
  | ushr =>
    rw [apply, toInt_ushr]
    rfl
  | and => exact w.modEq_of_bits (fun _ _ _ => Nat.and_mod_two_pow) rfl
  | or => exact w.modEq_of_bits (fun _ _ _ => Nat.or_mod_two_pow) rfl
  | xor => exact w.modEq_of_bits (fun _ _ _ => Nat.xor_mod_two_pow) rfl

theorem neg_modEq (w : Width) (a : Int32) :
    (-a).toInt ≡ -a.toInt [ZMOD 2 ^ w.valueBits] := by
  rw [Int32.toInt_neg]
  exact w.modEq_of_bmod _

/-- A quotient is rounded towards zero, -/
theorem div_modEq (w : Width) (a b : Int32) :
    (a / b).toInt ≡ a.toInt.tdiv b.toInt [ZMOD 2 ^ w.valueBits] := by
  rw [Int32.toInt_div]
  exact w.modEq_of_bmod _

/-- and a remainder belongs to such a quotient. -/
theorem rem_modEq (w : Width) (a b : Int32) :
    (a % b).toInt ≡ a.toInt.tmod b.toInt [ZMOD 2 ^ w.valueBits] := by
  rw [Int32.toInt_mod]

/-- Of the quotients of two integers of the width, only that of the least one
by `-1` is none. -/
theorem Width.tdiv_mem_iff (ha : w.InRange a) (hb : b ≠ 0) :
    (w.minInt.toInt ≤ a.toInt.tdiv b.toInt ∧
      a.toInt.tdiv b.toInt ≤ w.maxInt.toInt) ↔
      ¬ (a = w.minInt ∧ b = -1) := by
  obtain ⟨hlo, hhi⟩ := ha
  have hleast := w.two_mul_toInt_minInt
  have hgreatest := w.two_mul_toInt_maxInt
  have hmax : 1 ≤ w.maxInt.toInt := by cases w <;> decide
  have hminus : b = -1 ↔ b.toInt = -1 := by
    rw [← Int32.toInt_inj]
    rfl
  have hzero : b.toInt ≠ 0 := fun h => hb (Int32.toInt_inj.1 h)
  rw [hminus, ← Int32.toInt_inj]
  by_cases hone : b.toInt = 1
  · rw [hone, Int.tdiv_one]
    omega
  by_cases hopposite : b.toInt = -1
  · rw [hopposite, Int.tdiv_neg, Int.tdiv_one]
    omega
  · -- The quotient is at most half as large as the dividend.
    have habs : (a.toInt.tdiv b.toInt).natAbs =
        a.toInt.natAbs / b.toInt.natAbs := Int.natAbs_tdiv _ _
    have hhalf : a.toInt.natAbs / b.toInt.natAbs ≤ a.toInt.natAbs / 2 :=
      Nat.div_le_div_left (by omega) (by decide)
    omega

end SlotVm
