import SlotVm.Code.Decode

/-!
# Assembling

An `Assembler` collects the items of one method's code.  Branches and
switches name their targets by labels, which may be bound later.  The width
of an item does not depend on where its labels are bound, so the position
of every item is known when it is added, and `finish` only has to write the
offsets.
-/

namespace SlotVm

/-- The two bytes of a number, the most significant first. -/
def bytesOfShort (n : UInt16) : List UInt8 :=
  [UInt8.ofNat (n.toNat >>> 8), UInt8.ofNat n.toNat]

/-- The four bytes of a number, the most significant first. -/
def bytesOfWord (n : UInt32) : List UInt8 :=
  [UInt8.ofNat (n.toNat >>> 24), UInt8.ofNat (n.toNat >>> 16),
    UInt8.ofNat (n.toNat >>> 8), UInt8.ofNat n.toNat]

/-- The four bytes of a signed number. -/
def bytesOfInt (n : Int32) : List UInt8 := bytesOfWord n.toUInt32

namespace Assembler

/-- A piece of code. -/
inductive Item where
  /-- Bytes without a label in them. -/
  | bytes (bytes : List UInt8)
  | branch (op : Opcode) (label : Nat)
  | tableSwitch (low : Int32) (labels : List Nat) (fallback : Nat)
  | lookupSwitch (pairs : List (Int32 × Nat)) (fallback : Nat)

/-- The opcode of a switch at `position` and the padding behind it. -/
def switchHeader (op : Opcode) (position : Nat) : List UInt8 :=
  op.byte :: padding 0 (position + 1)

/-- Number of bytes of an item at a position. -/
def Item.size (position : Nat) : Item → Nat
  | bytes bs => bs.length
  | branch .. => 3
  | tableSwitch _ labels _ =>
      (switchHeader .tableSwitch position).length + 12 + 4 * labels.length
  | lookupSwitch pairs _ =>
      (switchHeader .lookupSwitch position).length + 8 + 8 * pairs.length

/-- The distance from `position` to where a label is bound. -/
def offset (labels : Array (Option Nat)) (position label : Nat) :
    Except Fault Int :=
  match labels[label]? with
  | some (some bound) => .ok ((bound : Int) - position)
  | _ => .error (.invalidImage (.unboundLabel label))

/-- An offset in four bytes. -/
def wideOffset (labels : Array (Option Nat)) (position label : Nat) :
    Except Fault (List UInt8) := do
  let n ← offset labels position label
  return bytesOfInt (Int32.ofInt n)

/-- An offset in two bytes. -/
def shortOffset (labels : Array (Option Nat)) (position label : Nat) :
    Except Fault (List UInt8) := do
  let n ← offset labels position label
  if -32768 ≤ n ∧ n ≤ 32767 then
    return bytesOfShort (UInt16.ofNat (n % 65536).toNat)
  else
    throw (.invalidImage (.branchTooFar n))

/-- The bytes of an item at a position. -/
def Item.encode (labels : Array (Option Nat)) (position : Nat) :
    Item → Except Fault (List UInt8)
  | bytes bs => .ok bs
  | branch op label => do
      let distance ← shortOffset labels position label
      return op.byte :: distance
  | tableSwitch low targets fallback => do
      let otherwise ← wideOffset labels position fallback
      let offsets ← targets.mapM (wideOffset labels position)
      let high := low + Int32.ofNat targets.length - 1
      return switchHeader .tableSwitch position ++ otherwise
        ++ bytesOfInt low ++ bytesOfInt high ++ offsets.flatten
  | lookupSwitch pairs fallback => do
      let otherwise ← wideOffset labels position fallback
      let entries ← pairs.mapM fun (key, label) => do
        let distance ← wideOffset labels position label
        return bytesOfInt key ++ distance
      return switchHeader .lookupSwitch position ++ otherwise
        ++ bytesOfWord (UInt32.ofNat pairs.length) ++ entries.flatten

end Assembler

/-- The code of one method under construction. -/
structure Assembler where
  /-- Layout of the method references. -/
  layout : RefLayout
  /-- Number of bytes so far. -/
  size : Nat
  /-- Items with their positions, the latest first. -/
  latest : List (Nat × Assembler.Item)
  /-- Where each label is bound. -/
  labels : Array (Option Nat)

namespace Assembler

/-- No code and no labels. -/
def empty (layout : RefLayout) : Assembler := ⟨layout, 0, [], #[]⟩

/-- Adds an item. -/
def add (a : Assembler) (item : Item) : Assembler :=
  { a with
    size := a.size + item.size a.size
    latest := (a.size, item) :: a.latest }

/-- Adds an opcode without operand. -/
def op (a : Assembler) (op : Opcode) : Assembler :=
  a.add (.bytes [op.byte])

/-- Adds an opcode with one byte. -/
def opByte (a : Assembler) (op : Opcode) (operand : UInt8) : Assembler :=
  a.add (.bytes [op.byte, operand])

/-- Adds an opcode with two bytes. -/
def opShort (a : Assembler) (op : Opcode) (operand : UInt16) : Assembler :=
  a.add (.bytes (op.byte :: bytesOfShort operand))

/-- Adds the shortest instruction that pushes `n`, of which only the low 16
bits are kept if it needs more. -/
def pushInt (a : Assembler) (n : Int32) : Assembler :=
  if -1 ≤ n ∧ n ≤ 5 then
    let rank := (n + 1).toInt.toNat
    a.op (.plain (.pushInt ⟨rank % 7, Nat.mod_lt rank (by decide)⟩))
  else if -128 ≤ n ∧ n ≤ 127 then
    a.opByte (.immediate .byte) n.toInt8.toUInt8
  else
    a.opShort (.immediate .short) n.toInt16.toUInt16

/-- Adds an increment of a local variable. -/
def increment (a : Assembler) (slot : UInt8) (delta : Int8) : Assembler :=
  a.add (.bytes [Opcode.increment.byte, slot, delta.toUInt8])

/-- Adds an invoke instruction. -/
def invoke (a : Assembler) (op : Opcode) (method : MethodRef) :
    Except Fault Assembler := do
  let packed ← a.layout.pack method
  return a.opShort op packed

/-- Makes a label, which is not bound yet. -/
def label (a : Assembler) : Nat × Assembler :=
  (a.labels.size, { a with labels := a.labels.push none })

/-- Binds a label to the current position. -/
def bind (a : Assembler) (label : Nat) : Assembler :=
  { a with labels := a.labels.setIfInBounds label (some a.size) }

/-- Adds a branch to a label. -/
def branch (a : Assembler) (op : Opcode) (label : Nat) : Assembler :=
  a.add (.branch op label)

/-- Adds a table switch for the keys from `low` on. -/
def tableSwitch (a : Assembler) (low : Int32) (labels : List Nat)
    (fallback : Nat) : Assembler :=
  a.add (.tableSwitch low labels fallback)

/-- Adds a lookup switch.  Its pairs are sorted by key; pairs of one key
keep their order. -/
def lookupSwitch (a : Assembler) (pairs : List (Int32 × Nat))
    (fallback : Nat) : Assembler :=
  a.add (.lookupSwitch (pairs.mergeSort (·.1 ≤ ·.1)) fallback)

/-- The finished code. -/
def finish (a : Assembler) : Except Fault (Array UInt8) := do
  let pieces ← a.latest.reverse.mapM fun (position, item) =>
    item.encode a.labels position
  return pieces.flatten.toArray

end Assembler

end SlotVm
