import SlotVm.Fault

/-!
# Packed method references

An invoke instruction carries a class id and a method id in one 16-bit
operand.  A `RefLayout` says how many of the low bits are the method id; the
rest is the class id.  Reading an operand is total, and `pack` fails when an
id needs more bits than the layout gives it.
-/

namespace SlotVm

/-- How many low bits of a packed reference are the method id. -/
structure RefLayout where
  methodBits : UInt8
deriving DecidableEq

namespace RefLayout

/-- Eight bits for the class and eight for the method. -/
def standard : RefLayout := ⟨8⟩

/-- Largest method id that fits. -/
def maxMethodId (l : RefLayout) : UInt16 :=
  UInt16.ofNat ((1 <<< l.methodBits.toNat) - 1)

/-- Largest class id that fits. -/
def maxClassId (l : RefLayout) : UInt16 :=
  UInt16.ofNat (65535 >>> l.methodBits.toNat)

/-- The ids in a packed reference. -/
def unpack (l : RefLayout) (raw : UInt16) : MethodRef where
  classId := UInt16.ofNat (raw.toNat >>> l.methodBits.toNat)
  methodId := UInt16.ofNat (raw.toNat % (1 <<< l.methodBits.toNat))

/-- Both ids fit. -/
def Fits (l : RefLayout) (r : MethodRef) : Prop :=
  r.methodId ≤ l.maxMethodId ∧ r.classId ≤ l.maxClassId

instance (l : RefLayout) (r : MethodRef) : Decidable (l.Fits r) :=
  inferInstanceAs (Decidable (_ ∧ _))

/-- Packs a reference whose ids fit. -/
def pack (l : RefLayout) (r : MethodRef) : Except Fault UInt16 :=
  if l.Fits r then
    .ok (UInt16.ofNat
      ((r.classId.toNat <<< l.methodBits.toNat) + r.methodId.toNat))
  else
    .error (.invalidImage (.unencodableRef r l.methodBits))

end RefLayout

end SlotVm
