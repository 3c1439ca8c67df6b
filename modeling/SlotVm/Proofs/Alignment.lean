import SlotVm.Code.Alignment

/-!
# Where the operands of a switch start

`switchStart` is the least multiple of four above the position of an opcode
(`switchStart_least`).  It is where the padding that is written ends
(`length_padding`) and what is found by clearing bits (`clearBits_eq`), so
what reads a switch looks where its operands were written.
-/

namespace SlotVm

/-- First position behind an opcode at `pc` that is a multiple of four. -/
def switchStart (pc : Nat) : Nat := (pc / 4 + 1) * 4

/-- The operands of a switch stand behind its opcode. -/
theorem lt_switchStart (pc : Nat) : pc < switchStart pc := by
  unfold switchStart
  omega

/-- There is no multiple of four between an opcode and its operands. -/
theorem switchStart_least (pc : Nat) :
    4 ∣ switchStart pc ∧ pc < switchStart pc ∧
      ∀ n, pc < n → 4 ∣ n → switchStart pc ≤ n := by
  refine ⟨Nat.dvd_mul_left 4 _, lt_switchStart pc, ?_⟩
  unfold switchStart
  omega

/-! ## Writing -/

theorem padding_eq (fill : UInt8) (size : Nat) :
    padding fill size = List.replicate ((4 - size % 4) % 4) fill := by
  fun_induction padding fill size with
  | case1 size haligned =>
    rw [haligned]
    rfl
  | case2 size hgap ih =>
    have hcount : (4 - size % 4) % 4 = (4 - (size + 1) % 4) % 4 + 1 := by omega
    rw [ih, hcount, List.replicate_succ]

/-- What is filled up comes to a multiple of four. -/
theorem four_dvd_padding (fill : UInt8) (size : Nat) :
    4 ∣ size + (padding fill size).length := by
  rw [padding_eq, List.length_replicate]
  omega

/-- The padding behind an opcode ends where the operands start. -/
theorem length_padding (fill : UInt8) (pc : Nat) :
    (padding fill (pc + 1)).length = switchStart pc - (pc + 1) := by
  rw [padding_eq, List.length_replicate, switchStart]
  omega

/-! ## Reading -/

/-- Clearing the low bits shifts them out. -/
theorem clearBits_low (n k : Nat) :
    clearBits n (1 <<< k - 1) = n >>> k <<< k := by
  apply Nat.eq_of_testBit_eq
  intro i
  rw [clearBits, Nat.testBit_xor, Nat.testBit_and, Nat.one_shiftLeft,
    Nat.testBit_two_pow_sub_one, Nat.testBit_shiftLeft, Nat.testBit_shiftRight]
  by_cases hi : i < k
  · simp [hi, Nat.not_le.2 hi]
  · simp [hi, Nat.not_lt.1 hi]

theorem clearBits_eq (pc : Nat) : clearBits (pc + 4) 3 = switchStart pc := by
  have hclear : clearBits (pc + 4) 3 = (pc + 4) >>> 2 <<< 2 :=
    clearBits_low (pc + 4) 2
  rw [hclear, switchStart, Nat.shiftLeft_eq, Nat.shiftRight_eq_div_pow]
  omega

end SlotVm
