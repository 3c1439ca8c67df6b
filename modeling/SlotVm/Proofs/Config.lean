import SlotVm.Image.Basic

/-!
# Valid configurations

`Config.Valid` collects what a configuration that passes the check satisfies.
Two parts of the library depend on it.

* The layout of packed references splits the 16 bits of an operand.  Both ids
  of a reference fit exactly if they are smaller than the two powers of two
  (`RefLayout.fits_iff`).
* The storage flag is one bit, so it can be taken out of an address, whether
  it is set or not (`Address.offset_decode`).
-/

namespace SlotVm

/-! ## The check -/

/-- The settings are consistent. -/
structure Config.Valid (c : Config) : Prop where
  codeSize_pos : 0 < c.codeSize
  stackSize_pos : 0 < c.stackSize
  depth_pos : 0 < c.maxCallDepth
  depth_le : c.maxCallDepth ≤ Config.callDepthLimit
  float_word : c.features.float = true → c.word = .word32
  flag : c.HasOneFlagBit
  methodBits_pos : 1 ≤ c.native.methodBits
  methodBits_le : c.native.methodBits ≤ 15
  classBase_le : c.native.classBase ≤ c.native.layout.maxClassId

/-- One test of a check that finds nothing. -/
theorem eq_none_of_ite {α : Type} {p : Prop} [Decidable p] {d : α}
    {rest : Option α} (h : (if p then some d else rest) = none) :
    ¬ p ∧ rest = none := by
  split at h
  · cases h
  · rename_i hp
    exact ⟨hp, h⟩

/-- A configuration that passes the check is valid. -/
theorem Config.valid_of_check {c : Config} (h : c.check = .ok ()) :
    c.Valid := by
  have hnone : c.defect? = none := by
    unfold check at h
    split at h
    · cases h
    · assumption
  unfold defect? at hnone
  obtain ⟨hsizes, hnone⟩ := eq_none_of_ite hnone
  obtain ⟨hdepth, hnone⟩ := eq_none_of_ite hnone
  obtain ⟨hfloat, hnone⟩ := eq_none_of_ite hnone
  obtain ⟨hflag, hnone⟩ := eq_none_of_ite hnone
  obtain ⟨hbits, hnone⟩ := eq_none_of_ite hnone
  obtain ⟨hbase, -⟩ := eq_none_of_ite hnone
  rw [UInt8.lt_iff_toNat_lt, UInt8.lt_iff_toNat_lt] at hbits
  exact {
    codeSize_pos := by omega
    stackSize_pos := by omega
    depth_pos := by omega
    depth_le := by omega
    float_word := fun henabled =>
      Decidable.byContradiction fun hword => hfloat ⟨henabled, hword⟩
    flag := Decidable.not_not.1 hflag
    methodBits_pos := by
      rw [UInt8.le_iff_toNat_le]
      omega
    methodBits_le := by
      rw [UInt8.le_iff_toNat_le]
      omega
    classBase_le := UInt16.not_lt.1 hbase }

/-! ## Packed references -/

/-- Two powers of two that make up the 16 bits of an operand. -/
theorem shiftLeft_mul_shiftLeft {bits : Nat} (h : bits ≤ 16) :
    (1 <<< (16 - bits)) * (1 <<< bits) = 65536 := by
  rw [Nat.one_shiftLeft, Nat.one_shiftLeft, ← Nat.pow_add,
    Nat.sub_add_cancel h]

/-- A reference fits if its ids are smaller than the powers of two that the
layout gives them. -/
theorem RefLayout.fits_iff {l : RefLayout} (h : l.methodBits ≤ 15)
    {r : MethodRef} : l.Fits r ↔
      r.methodId.toNat < 1 <<< l.methodBits.toNat ∧
        r.classId.toNat < 1 <<< (16 - l.methodBits.toNat) := by
  have hbits : l.methodBits.toNat ≤ 15 := h
  unfold Fits maxMethodId maxClassId
  rw [Nat.shiftRight_eq_div_pow, ← Nat.one_shiftLeft, UInt16.le_iff_toNat_le,
    UInt16.le_iff_toNat_le]
  -- Of the two powers only their product matters from here on.
  have hproduct := shiftLeft_mul_shiftLeft (Nat.le_succ_of_le hbits)
  generalize 1 <<< l.methodBits.toNat = methods at hproduct ⊢
  generalize 1 <<< (16 - l.methodBits.toNat) = classes at hproduct ⊢
  have hpos : 0 < classes * methods := by omega
  have hmethods : 0 < methods := Nat.pos_of_mul_pos_left hpos
  have hclasses : 0 < classes := Nat.pos_of_mul_pos_right hpos
  have hmethods_le : methods ≤ 65536 := by
    rw [← hproduct]
    exact Nat.le_mul_of_pos_left methods hclasses
  have hquotient : 65535 / methods ≤ 65535 := Nat.div_le_self _ _
  have hsize : UInt16.size = 65536 := rfl
  rw [UInt16.toNat_ofNat_of_lt' (by omega), UInt16.toNat_ofNat_of_lt' (by omega),
    Nat.le_div_iff_mul_le hmethods]
  have hclass : r.classId.toNat * methods ≤ 65535 ↔
      r.classId.toNat < classes := by
    rw [← Nat.mul_lt_mul_right hmethods, hproduct]
    omega
  rw [hclass]
  have hmethod : r.methodId.toNat ≤ methods - 1 ↔
      r.methodId.toNat < methods := by omega
  rw [hmethod]

/-- A reference that is packed is read back. -/
theorem RefLayout.unpack_pack {l : RefLayout} (h : l.methodBits ≤ 15)
    {r : MethodRef} {raw : UInt16} (hpack : l.pack r = .ok raw) :
    l.unpack raw = r := by
  have hbits : l.methodBits.toNat ≤ 15 := h
  have hproduct := shiftLeft_mul_shiftLeft (Nat.le_succ_of_le hbits)
  unfold pack at hpack
  split at hpack
  · rename_i hfits
    cases hpack
    obtain ⟨hmethod, hclass⟩ := (fits_iff h).1 hfits
    unfold unpack
    rw [Nat.shiftRight_eq_div_pow, Nat.shiftLeft_eq, ← Nat.one_shiftLeft]
    generalize 1 <<< l.methodBits.toNat = methods at hproduct hmethod ⊢
    generalize 1 <<< (16 - l.methodBits.toNat) = classes at hproduct hclass
    have hmethods : 0 < methods := by omega
    have hlast : (r.classId.toNat + 1) * methods ≤ classes * methods :=
      Nat.mul_le_mul_right methods hclass
    rw [hproduct, Nat.succ_mul] at hlast
    have hsize : UInt16.size = 65536 := rfl
    have hclassId : (r.classId.toNat * methods + r.methodId.toNat) / methods =
        r.classId.toNat := by
      rw [Nat.mul_comm, Nat.mul_add_div hmethods, Nat.div_eq_of_lt hmethod,
        Nat.add_zero]
    have hmethodId : (r.classId.toNat * methods + r.methodId.toNat) % methods =
        r.methodId.toNat := by
      rw [Nat.mul_comm, Nat.mul_add_mod, Nat.mod_eq_of_lt hmethod]
    rw [UInt16.toNat_ofNat_of_lt' (by omega), hclassId, hmethodId,
      UInt16.ofNat_toNat, UInt16.ofNat_toNat]
  · cases hpack

/-! ## Addresses -/

/-- The flag of a valid configuration is a bit. -/
theorem Config.Valid.flag_ne_zero {c : Config} (h : c.Valid) :
    c.storageFlag ≠ 0 := by
  obtain ⟨i, -, hbit⟩ := h.flag
  intro hzero
  rw [hzero, Nat.one_shiftLeft] at hbit
  exact Nat.ne_of_gt (Nat.two_pow_pos i) hbit.symm

/-- Taking a flag out of an address that does not have it. -/
theorem Address.and_not_of_and_eq_zero {raw flag : UInt32}
    (h : raw &&& flag = 0) : raw &&& ~~~flag = raw := by
  have hsplit : raw &&& (flag ||| ~~~flag) =
      raw &&& flag ||| raw &&& ~~~flag :=
    UInt32.toBitVec_inj.1 BitVec.and_or_distrib_left
  rw [UInt32.or_not_self, UInt32.and_neg_one, h, UInt32.zero_or] at hsplit
  exact hsplit.symm

/-- The position of an address is what is left of it without the flag. -/
theorem Address.offset_decode {flag : UInt32} (hflag : flag ≠ 0)
    (raw : UInt32) : (decode flag raw).offset = raw &&& ~~~flag := by
  unfold decode
  by_cases hclear : raw &&& flag = 0
  · rw [if_neg fun h => h.2 hclear, and_not_of_and_eq_zero hclear]
  · rw [if_pos ⟨hflag, hclear⟩]

end SlotVm
