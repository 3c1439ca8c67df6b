import SlotVm.Native.Strings
import SlotVm.Single.Basic
import SlotVm.Word

/-!
# Ranges of integers

Two ranges matter for the integers of a machine.  `Width.InRange` is the
range of the width, into which `Width.wrap` brings every result.  What does
not go through `Width.wrap` is cut in another way.  Bytes, truth values and
the results of comparisons are in the range of every width (`IsSmall`).
Characters and the elements of short arrays have 16 bits, with or without a
sign (`IsShort`), which is more than an integer of a narrow word has.
-/

namespace SlotVm

/-- The integer is one of the width. -/
def Width.InRange (w : Width) (n : Int32) : Prop :=
  w.minInt.toInt ≤ n.toInt ∧ n.toInt ≤ w.maxInt.toInt

/-- The integer is one of every width. -/
def IsSmall (n : Int32) : Prop := -16384 ≤ n.toInt ∧ n.toInt ≤ 16383

/-- The integer has 16 bits, with or without a sign. -/
def IsShort (n : Int32) : Prop := -32768 ≤ n.toInt ∧ n.toInt ≤ 65535

/-- A count that fits four bytes is kept. -/
theorem toInt_ofNat_of_small {n : Nat} (hn : n < 2147483648) :
    (Int32.ofNat n).toInt = n := by
  have hsmall : (Int32.ofInt (n : Int)).toInt = n :=
    Int32.toInt_ofInt_of_le (by omega) (by omega)
  rwa [Int32.ofInt_eq_ofNat] at hsmall

/-! ## Integers of the width -/

theorem Width.inRange_wrap (w : Width) (n : Int32) : w.InRange (w.wrap n) :=
  w.wrap_mem_range n

/-- An integer of the width is its own balanced residue. -/
theorem Width.bmod_of_inRange {w : Width} {n : Int32} (hn : w.InRange n) :
    n.toInt.bmod w.intCount = n.toInt := by
  obtain ⟨hlo, hhi⟩ := hn
  have hleast := w.two_mul_toInt_minInt
  have hgreatest := w.two_mul_toInt_maxInt
  exact Int.bmod_eq_of_le (by omega) (by omega)

theorem Width.wrap_of_inRange {w : Width} {n : Int32} (hn : w.InRange n) :
    w.wrap n = n := by
  apply Int32.toInt_inj.1
  rw [toInt_wrap, bmod_of_inRange hn]

theorem Width.inRange_of_small (w : Width) {n : Int32} (hn : IsSmall n) :
    w.InRange n := by
  have hlo : w.minInt.toInt ≤ -16384 := by cases w <;> decide
  have hhi : 16383 ≤ w.maxInt.toInt := by cases w <;> decide
  unfold IsSmall at hn
  unfold InRange
  omega

/-- The integers of a wide word have more than 16 bits. -/
theorem Width.inRange_of_short {n : Int32} (hn : IsShort n) :
    Width.word32.InRange n := by
  have hlo : Width.word32.minInt.toInt = -1073741824 := by decide
  have hhi : Width.word32.maxInt.toInt = 1073741823 := by decide
  unfold IsShort at hn
  unfold InRange
  omega

/-- A number is cut to the range of the width. -/
theorem Width.inRange_clamp (w : Width) (n : Int) :
    w.InRange (Int32.ofInt (max w.minInt.toInt (min w.maxInt.toInt n))) := by
  have hle : w.minInt.toInt ≤ w.maxInt.toInt := by cases w <;> decide
  have hlo := w.minInt.le_toInt
  have hhi := w.maxInt.toInt_lt
  unfold InRange
  rw [Int32.toInt_ofInt_of_le (by omega) (by omega)]
  omega

/-- So is the whole part of a float. -/
theorem Width.inRange_truncate (w : Width) (x : Float32) :
    w.InRange (Single.truncate w.minInt w.maxInt x) := by
  have hle : w.minInt.toInt ≤ w.maxInt.toInt := by cases w <;> decide
  unfold Single.truncate
  split
  · exact w.inRange_of_small ⟨by decide, by decide⟩
  · split
    · exact ⟨Int.le_refl _, hle⟩
    · exact ⟨hle, Int.le_refl _⟩
  · exact w.inRange_clamp _

/-! ## Integers that are cut -/

/-- Bits behind a mask. -/
theorem toInt_and_le (n mask : Int32)
    (hmask : mask.toBitVec.toNat ≤ 65535) :
    0 ≤ (n &&& mask).toInt ∧ (n &&& mask).toInt ≤ mask.toBitVec.toNat := by
  have hle : (n &&& mask).toBitVec.toNat ≤ mask.toBitVec.toNat := by
    rw [Int32.toBitVec_and, BitVec.toNat_and]
    exact Nat.and_le_right
  rw [← Int32.toInt_toBitVec, BitVec.toInt_eq_toNat_of_lt (by omega)]
  omega

theorem isSmall_truth (n : Int32) : IsSmall (n &&& 1) := by
  have hrange := toInt_and_le n 1 (by decide)
  have hmask : (1 : Int32).toBitVec.toNat = 1 := by decide
  unfold IsSmall
  omega

theorem isShort_char (n : Int32) : IsShort (n &&& 0xffff) := by
  have hrange := toInt_and_le n 0xffff (by decide)
  have hmask : (0xffff : Int32).toBitVec.toNat = 65535 := by decide
  unfold IsShort
  omega

theorem isSmall_toInt8 (n : Int32) : IsSmall n.toInt8.toInt32 := by
  have hlo := n.toInt8.le_toInt
  have hhi := n.toInt8.toInt_lt
  unfold IsSmall
  rw [Int8.toInt_toInt32]
  omega

theorem isShort_toInt16 (n : Int32) : IsShort n.toInt16.toInt32 := by
  have hlo := n.toInt16.le_toInt
  have hhi := n.toInt16.toInt_lt
  unfold IsShort
  rw [Int16.toInt_toInt32]
  omega

theorem isSmall_byte (b : UInt8) : IsSmall b.toUInt32.toInt32 := by
  have hnat : b.toUInt32.toInt32.toBitVec.toNat = b.toNat :=
    UInt8.toNat_toUInt32 b
  have hlt := b.toNat_lt
  unfold IsSmall
  rw [← Int32.toInt_toBitVec, BitVec.toInt_eq_toNat_of_lt (by omega)]
  omega

/-- The result of a comparison. -/
theorem isSmall_compare (x y : Float32) {unordered : Int32}
    (h : IsSmall unordered) : IsSmall (Single.compare x y unordered) := by
  unfold Single.compare
  split
  · exact ⟨by decide, by decide⟩
  · split
    · exact ⟨by decide, by decide⟩
    · split
      · exact ⟨by decide, by decide⟩
      · exact h

/-- The unit that a heap string keeps of a character has no sign. -/
theorem toInt_unit (c : Char) :
    0 ≤ (Int32.ofNat (Strings.unit c)).toInt ∧
      (Int32.ofNat (Strings.unit c)).toInt ≤ 65535 := by
  have hunit : Strings.unit c < 65536 := Nat.mod_lt _ (by decide)
  rw [toInt_ofNat_of_small (by omega)]
  omega

theorem isShort_unit (c : Char) : IsShort (Int32.ofNat (Strings.unit c)) := by
  have hunit := toInt_unit c
  unfold IsShort
  omega

end SlotVm
