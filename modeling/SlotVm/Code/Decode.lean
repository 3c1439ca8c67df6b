import SlotVm.Code.Alignment
import SlotVm.Code.Instruction

/-!
# Decoding

`Instruction.decode` reads the instruction at a position of a method's code.
Numbers are big-endian.  A branch offset counts from the position of the
opcode and must lead into the code.  The operands of a switch start at the
next multiple of four behind the opcode; their targets are checked in
order, each one before the next is read.
-/

namespace SlotVm

/-- The number that bytes write, the most significant first. -/
def bigEndian (bytes : List UInt8) : Nat :=
  bytes.foldl (fun n b => n * 256 + b.toNat) 0

namespace Instruction

/-- The `count` bytes at a position of the code of the instruction at
`pc`. -/
def bytesAt (code : Array UInt8) (pc position count : Nat) :
    Except Fault (List UInt8) :=
  if position + count ≤ code.size then
    .ok (code.extract position (position + count)).toList
  else
    .error (.invalidImage (.truncatedInstruction pc))

/-- An unsigned byte. -/
def byteAt (code : Array UInt8) (pc position : Nat) : Except Fault UInt8 := do
  let bytes ← bytesAt code pc position 1
  return UInt8.ofNat (bigEndian bytes)

/-- An unsigned 16-bit number. -/
def shortAt (code : Array UInt8) (pc position : Nat) : Except Fault UInt16 := do
  let bytes ← bytesAt code pc position 2
  return UInt16.ofNat (bigEndian bytes)

/-- A signed 32-bit number. -/
def wordAt (code : Array UInt8) (pc position : Nat) : Except Fault Int32 := do
  let bytes ← bytesAt code pc position 4
  return Int32.ofNat (bigEndian bytes)

/-- The position that an offset leads to. -/
def target (code : Array UInt8) (pc : Nat) (offset : Int) : Except Fault Nat :=
  let position := pc + offset
  if 0 ≤ position ∧ position < code.size then
    .ok position.toNat
  else
    .error (.invalidImage (.branchOutside pc position))

/-- The targets of `count` offsets in a row. -/
def targetsAt (code : Array UInt8) (pc : Nat) :
    Nat → Nat → Except Fault (List Nat)
  | 0, _ => return []
  | count + 1, position => do
      let offset ← wordAt code pc position
      let first ← target code pc offset.toInt
      let rest ← targetsAt code pc count (position + 4)
      return first :: rest

/-- `count` keys, each with the target of the offset behind it. -/
def pairsAt (code : Array UInt8) (pc : Nat) :
    Nat → Nat → Except Fault (List (Int32 × Nat))
  | 0, _ => return []
  | count + 1, position => do
      let key ← wordAt code pc position
      let offset ← wordAt code pc (position + 4)
      let first ← target code pc offset.toInt
      let rest ← pairsAt code pc count (position + 8)
      return (key, first) :: rest

/-- The operands of a table switch and the position behind them. -/
def tableSwitchAt (code : Array UInt8) (pc : Nat) :
    Except Fault (Operation × Nat) := do
  let start := clearBits (pc + 4) 3
  let fallbackOffset ← wordAt code pc start
  let low ← wordAt code pc (start + 4)
  let high ← wordAt code pc (start + 8)
  if high < low then
    throw (.invalidImage (.tableBoundsReversed pc high low))
  let count := (high.toInt - low.toInt).toNat + 1
  -- more entries than the whole code could hold
  if code.size / 4 < count then
    throw (.invalidImage (.truncatedInstruction pc))
  let fallback ← target code pc fallbackOffset.toInt
  let targets ← targetsAt code pc count (start + 12)
  return (.tableSwitch fallback low targets, start + 12 + 4 * count)

/-- The operands of a lookup switch and the position behind them. -/
def lookupSwitchAt (code : Array UInt8) (pc : Nat) :
    Except Fault (Operation × Nat) := do
  let start := clearBits (pc + 4) 3
  let fallbackOffset ← wordAt code pc start
  let count ← wordAt code pc (start + 4)
  if count < 0 ∨ ((code.size / 8 : Nat) : Int) < count.toInt then
    throw (.invalidImage (.pairCount pc count))
  let count := count.toInt.toNat
  let fallback ← target code pc fallbackOffset.toInt
  let pairs ← pairsAt code pc count (start + 8)
  return (.lookupSwitch fallback pairs, start + 8 + 8 * count)

/-- The operands of an opcode at `pc` and the position behind them. -/
def operationAt (code : Array UInt8) (pc : Nat) :
    Opcode → Except Fault (Operation × Nat)
  | .plain op => return (.plain op, pc + 1)
  | .immediate .byte => do
      let n ← byteAt code pc (pc + 1)
      return (.immediate .byte n.toInt8.toInt32, pc + 2)
  | .immediate .short => do
      let n ← shortAt code pc (pc + 1)
      return (.immediate .short n.toInt16.toInt32, pc + 3)
  | .byteOperand op => do
      let b ← byteAt code pc (pc + 1)
      return (.byteOperand op b, pc + 2)
  | .index op => do
      let i ← shortAt code pc (pc + 1)
      return (.index op i, pc + 3)
  | .branch op => do
      let offset ← shortAt code pc (pc + 1)
      let destination ← target code pc offset.toInt16.toInt
      return (.branch op destination, pc + 3)
  | .increment => do
      let slot ← byteAt code pc (pc + 1)
      let delta ← byteAt code pc (pc + 2)
      return (.increment slot delta.toInt8, pc + 3)
  | .tableSwitch => tableSwitchAt code pc
  | .lookupSwitch => lookupSwitchAt code pc

/-- The instruction at a position. -/
def decode (code : Array UInt8) (pc : Nat) : Except Fault Instruction := do
  let some byte := code[pc]?
    | throw (.invalidImage (.pcOutside pc))
  let some opcode := Opcode.ofByte? byte
    | throw (.invalidOpcode byte pc)
  let (operation, stop) ← operationAt code pc opcode
  return ⟨pc, operation, stop - (pc + 1)⟩

end Instruction

end SlotVm
