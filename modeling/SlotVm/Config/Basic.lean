import SlotVm.RefLayout
import SlotVm.Word

/-!
# Configurations

A configuration fixes the sizes of the machine, its word width, the optional
features and the native classes that a build profile contains.  There are
two profiles: `Config.unix` for a desktop host and `Config.asuro` for a
small robot.

`Config.check` refuses inconsistent settings and names the first defect in a
fixed order.
-/

namespace SlotVm

/-- What happens to values that a method leaves on its operand stack. -/
inductive ResiduePolicy where
  /-- They are a fault. -/
  | verify
  /-- They are dropped. -/
  | discard
  /-- They stay for the caller. -/
  | retain
deriving DecidableEq, Inhabited

/-- Optional features of the interpreter. -/
structure Features where
  /-- Array allocation and element access. -/
  arrays : Bool
  /-- Multi-way branches. -/
  switch : Bool
  /-- Lookup of methods through parent classes. -/
  inheritance : Bool
  /-- Float values and opcodes. -/
  float : Bool
deriving DecidableEq

/-- Kinds of native families that a profile contains, besides the root
class. -/
structure FamilySet where
  /-- Console streams and string buffers. -/
  stdio : Bool
  /-- Ports, timers and converters. -/
  avr : Bool
  /-- Character display. -/
  lcd : Bool
  /-- Robot platform. -/
  asuro : Bool
deriving DecidableEq

/-- The ids of the native classes. -/
structure NativeRange where
  /-- Least native class id; the classes of a program lie below. -/
  classBase : UInt16
  /-- Bits of a packed reference that hold the method id. -/
  methodBits : UInt8
deriving DecidableEq

namespace NativeRange

/-- Layout of packed references. -/
def layout (n : NativeRange) : RefLayout := ⟨n.methodBits⟩

/-- The class id is that of a native class. -/
def Contains (n : NativeRange) (classId : UInt16) : Prop :=
  n.classBase ≤ classId

instance (n : NativeRange) (classId : UInt16) :
    Decidable (n.Contains classId) :=
  inferInstanceAs (Decidable (_ ≤ _))

end NativeRange

/-- All settings of a machine. -/
structure Config where
  /-- Largest code region in bytes. -/
  codeSize : Nat
  /-- Size of the heap in bytes. -/
  heapSize : Nat
  /-- Capacity of the operand stack in slots. -/
  stackSize : Nat
  /-- Greatest number of nested calls. -/
  maxCallDepth : Nat
  word : Width
  features : Features
  residue : ResiduePolicy
  /-- Address bit of code in persistent storage. -/
  storageFlag : UInt32
  native : NativeRange
  families : FamilySet
  /-- Every executed instruction is logged. -/
  trace : Bool
deriving DecidableEq

namespace Config

/-- No configuration allows more nested calls. -/
def callDepthLimit : Nat := 128

/-- Desktop host. -/
def unix : Config where
  codeSize := 32768
  heapSize := 768
  stackSize := 128
  maxCallDepth := 32
  word := .word32
  features := ⟨true, true, true, true⟩
  residue := .verify
  storageFlag := 0x40000000
  native := ⟨16, 8⟩
  families := { stdio := true, avr := false, lcd := false, asuro := false }
  trace := false

/-- Small robot: narrow words, no floats, little code and stack. -/
def asuro : Config where
  codeSize := 512
  heapSize := 768
  stackSize := 32
  maxCallDepth := 8
  word := .word16
  features := ⟨true, true, true, false⟩
  residue := .discard
  storageFlag := 0x8000
  native := ⟨16, 8⟩
  families := { stdio := true, avr := false, lcd := false, asuro := true }
  trace := false

/-- Heap capacity in slots of one word. -/
def heapSlots (c : Config) : Nat := c.heapSize / c.word.bytes

/-- The storage flag is exactly one bit of the word. -/
def HasOneFlagBit (c : Config) : Prop :=
  ∃ i < c.word.bits, c.storageFlag.toNat = 1 <<< i

instance (c : Config) : Decidable c.HasOneFlagBit :=
  inferInstanceAs (Decidable (∃ i < _, _))

/-- The first defect of a configuration. -/
def defect? (c : Config) : Option ConfigDefect :=
  if c.codeSize = 0 ∨ c.stackSize = 0 then
    some .emptySizes
  else if c.maxCallDepth = 0 ∨ callDepthLimit < c.maxCallDepth then
    some (.callDepth callDepthLimit)
  else if c.features.float ∧ c.word ≠ .word32 then
    some .floatNeedsWord32
  else if ¬ c.HasOneFlagBit then
    some (.storageFlag c.storageFlag)
  else if c.native.methodBits < 1 ∨ 15 < c.native.methodBits then
    some .methodBits
  else if c.native.layout.maxClassId < c.native.classBase then
    some (.classBaseTooWide c.native.classBase)
  else
    none

/-- Refuses inconsistent settings. -/
def check (c : Config) : Except Fault Unit :=
  match c.defect? with
  | some d => .error (.invalidConfig d)
  | none => .ok ()

end Config

end SlotVm
