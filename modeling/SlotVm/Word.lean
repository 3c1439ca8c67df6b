/-!
# Machine words

A word is 16 or 32 bits wide.  One bit of every word tells references from
numbers, so an integer has one bit less than the word: 15 or 31 bits in
two's complement.

`Width.wrap` brings a 32-bit result into that range by two shifts, and
`toInt_wrap` says that this gives the balanced residue modulo `intCount`, the
number of integers.
The range itself is `Width.minInt` to `Width.maxInt`, and `wrap_mem_range`
puts every wrapped integer into it.
-/

namespace SlotVm

/-- Width of a machine word. -/
inductive Width where
  | word16
  | word32
deriving DecidableEq, Inhabited

namespace Width

/-- Bits of a word. -/
def bits : Width → Nat
  | word16 => 16
  | word32 => 32

/-- Bytes of a word, which is also the size of a heap slot. -/
def bytes : Width → Nat
  | word16 => 2
  | word32 => 4

/-- Bits of an integer: all but the one that tags references. -/
def valueBits : Width → Nat
  | word16 => 15
  | word32 => 31

/-- Number of integers of the width. -/
def intCount : Width → Nat
  | word16 => 0x8000
  | word32 => 0x80000000

/-- Largest integer of the width. -/
def maxInt : Width → Int32
  | word16 => 16383
  | word32 => 1073741823

/-- Smallest integer of the width. -/
def minInt : Width → Int32
  | word16 => -16384
  | word32 => -1073741824

/-- Bits of a 32-bit number that an integer of the width does not have. -/
def spareBits (w : Width) : Nat := 32 - w.valueBits

/-- The integer of the width that is congruent to `n`: the spare bits are
shifted out, and come back as copies of the sign. -/
def wrap (w : Width) (n : Int32) : Int32 :=
  n <<< Int32.ofNat w.spareBits >>> Int32.ofNat w.spareBits

theorem bits_eq (w : Width) : w.bits = w.valueBits + 1 := by
  cases w <;> rfl

theorem intCount_eq (w : Width) : w.intCount = 1 <<< w.valueBits := by
  cases w <;> rfl

theorem intCount_pos (w : Width) : 0 < w.intCount := by
  cases w <;> decide

theorem two_mul_toInt_maxInt (w : Width) :
    2 * w.maxInt.toInt = w.intCount - 2 := by
  cases w <;> decide

theorem two_mul_toInt_minInt (w : Width) :
    2 * w.minInt.toInt = -w.intCount := by
  cases w <;> decide

theorem two_dvd_intCount (w : Width) : 2 ∣ w.intCount := by
  cases w <;> decide

theorem toBitVec_wrap (w : Width) (n : Int32) :
    (w.wrap n).toBitVec =
      (n.toBitVec <<< w.spareBits).sshiftRight w.spareBits := by
  cases w <;> rfl

/-- Wrapping is the balanced residue modulo the number of integers. -/
theorem toInt_wrap (w : Width) (n : Int32) :
    (w.wrap n).toInt = n.toInt.bmod w.intCount := by
  have hcount : 2 ^ w.spareBits * w.intCount = 2 ^ 32 := by
    cases w <;> rfl
  have hleft : (n.toBitVec <<< w.spareBits).toInt =
      2 ^ w.spareBits * (n.toBitVec.toNat : Int).bmod w.intCount := by
    rw [BitVec.toInt_shiftLeft, Nat.shiftLeft_eq, Nat.mul_comm, ← hcount,
      Int.natCast_mul]
    exact Int.mod_bmod_mul_of_pos _ _ (Nat.two_pow_pos _) w.two_dvd_intCount
  have hdvd : w.intCount ∣ 2 ^ 32 := by
    cases w <;> decide
  have hresidue : n.toInt.bmod w.intCount =
      (n.toBitVec.toNat : Int).bmod w.intCount := by
    rw [← Int32.toInt_toBitVec, BitVec.toInt_eq_toNat_bmod,
      Int.bmod_bmod_of_dvd hdvd]
  rw [← Int32.toInt_toBitVec, toBitVec_wrap, BitVec.toInt_sshiftRight, hleft,
    hresidue, Int.shiftRight_eq_div_pow]
  exact Int.mul_ediv_cancel_left _ (Int.pow_ne_zero (by decide))

/-- A wrapped integer lies in the range of the width. -/
theorem wrap_mem_range (w : Width) (n : Int32) :
    w.minInt.toInt ≤ (w.wrap n).toInt ∧
      (w.wrap n).toInt ≤ w.maxInt.toInt := by
  have lo := Int.le_bmod (x := n.toInt) w.intCount_pos
  have hi := Int.bmod_lt (x := n.toInt) w.intCount_pos
  have least := w.two_mul_toInt_minInt
  have greatest := w.two_mul_toInt_maxInt
  rw [toInt_wrap]
  cases w <;> simp only [intCount] at lo hi least greatest ⊢ <;> omega

end Width

end SlotVm
