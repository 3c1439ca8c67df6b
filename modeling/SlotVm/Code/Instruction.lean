import SlotVm.Code.Opcode

/-!
# Instructions

An `Operation` is an opcode together with operands of its shape.  Branch
offsets are resolved: a target is a position in the method's code.  An
`Instruction` is an operation with its place in the code.
-/

namespace SlotVm

/-- An opcode with its operands. -/
inductive Operation where
  | plain (op : PlainOp)
  | immediate (op : ImmediateOp) (n : Int32)
  | byteOperand (op : ByteOp) (operand : UInt8)
  | index (op : IndexOp) (operand : UInt16)
  | branch (op : BranchOp) (target : Nat)
  /-- Adds a signed byte to a local variable. -/
  | increment (slot : UInt8) (delta : Int8)
  /-- One target per key, upwards from `low`, and one for all other keys. -/
  | tableSwitch (fallback : Nat) (low : Int32) (targets : List Nat)
  /-- Keys with their targets, and a target for all other keys. -/
  | lookupSwitch (fallback : Nat) (pairs : List (Int32 × Nat))
deriving DecidableEq

namespace Operation

/-- The opcode of an operation. -/
def opcode : Operation → Opcode
  | plain op => .plain op
  | immediate op _ => .immediate op
  | byteOperand op _ => .byteOperand op
  | index op _ => .index op
  | branch op _ => .branch op
  | increment .. => .increment
  | tableSwitch .. => .tableSwitch
  | lookupSwitch .. => .lookupSwitch

/-- The cases of a switch, each behind a blank. -/
def casesText (cases : List (Int × Nat)) (fallback : Nat) : String :=
  String.join (cases.map fun (key, target) => s!" {key}:{target}")
    ++ s!" default:{fallback}"

/-- The operands in a listing, behind a blank. -/
def operandText : Operation → String
  | plain _ => ""
  | immediate _ n => s!" {n}"
  | byteOperand _ b => s!" {b}"
  | index _ i => s!" #{i}"
  | branch _ target => s!" -> {target}"
  | increment slot delta => s!" {slot} {delta}"
  | tableSwitch fallback low targets =>
      casesText
        (targets.zipIdx.map fun (target, i) => (low.toInt + i, target))
        fallback
  | lookupSwitch fallback pairs =>
      casesText (pairs.map fun (key, target) => (key.toInt, target)) fallback

/-- The mnemonic with the operands. -/
def text (o : Operation) : String := o.opcode.mnemonic ++ o.operandText

end Operation

/-- An operation with its place in a method's code. -/
structure Instruction where
  /-- Position of the opcode. -/
  pc : Nat
  operation : Operation
  /-- Bytes behind the opcode, padding included. -/
  operandBytes : Nat
deriving DecidableEq

namespace Instruction

/-- Number of bytes. -/
def len (i : Instruction) : Nat := i.operandBytes + 1

/-- Position of the following instruction. -/
def next (i : Instruction) : Nat := i.pc + i.len

theorem pc_lt_next (i : Instruction) : i.pc < i.next := by
  simp only [next, len]; omega

end Instruction

end SlotVm
