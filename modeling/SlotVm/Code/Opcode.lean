import SlotVm.Config.Basic

/-!
# Opcodes

An opcode belongs to one of seven operand shapes, and each shape has a type
of its own: `PlainOp` without operand, `ImmediateOp` with a signed number,
`ByteOp` with one unsigned byte, `IndexOp` with a 16-bit index, `BranchOp`
with a branch offset, the local increment, and the two switches.

Opcodes that do the same to different kinds of values are one constructor
with the kind as its argument, so `load` of a `Tag` is `iload`, `fload` or
`aload`.  `Opcode.byte` is the encoding, and `Opcode.ofByte?` inverts it.
-/

namespace SlotVm

/-! ## Arguments of opcodes -/

/-- Kind of value that a local-variable or return instruction names. -/
inductive Tag where
  | int
  | float
  | ref
deriving DecidableEq

/-- Element kind that an array access names. -/
inductive Element where
  | int
  | float
  | ref
  | byte
  | char
  | short
deriving DecidableEq

/-- Comparison with zero or of two integers. -/
inductive Condition where
  | eq
  | ne
  | lt
  | ge
  | gt
  | le
deriving DecidableEq

/-- Binary integer operation that cannot fail. -/
inductive IntOp where
  | add
  | sub
  | mul
  | shl
  | shr
  | ushr
  | and
  | or
  | xor
deriving DecidableEq

/-- Binary float operation. -/
inductive FloatOp where
  | add
  | sub
  | mul
  | div
  | rem
deriving DecidableEq

/-- Integer type that an integer is cut to. -/
inductive Narrowing where
  | byte
  | char
  | short
deriving DecidableEq

/-- How an invoke instruction selects the method. -/
inductive InvokeKind where
  /-- By the class of the receiver. -/
  | virtual
  | special
  | static
deriving DecidableEq

/-! ## Opcodes by operand shape -/

/-- Opcodes without operand. -/
inductive PlainOp where
  | nop
  | pushNull
  /-- Pushes the integer `n - 1`. -/
  | pushInt (n : Fin 7)
  /-- Pushes the float `n`. -/
  | pushFloat (n : Fin 3)
  | load (tag : Tag) (slot : Fin 4)
  | store (tag : Tag) (slot : Fin 4)
  | arrayLoad (element : Element)
  | arrayStore (element : Element)
  | pop
  | pop2
  | dup
  | dupX1
  | dup2
  | swap
  | intBinary (op : IntOp)
  | intDiv
  | intRem
  | intNeg
  | floatBinary (op : FloatOp)
  | floatNeg
  | intToFloat
  | floatToInt
  | narrow (kind : Narrowing)
  /-- Compares two floats; a NaN makes the first the less one. -/
  | floatCompareLess
  /-- Compares two floats; a NaN makes the first the greater one. -/
  | floatCompareGreater
  | returnValue (tag : Tag)
  | returnVoid
  | arrayLength
deriving DecidableEq

/-- Opcodes with a signed number. -/
inductive ImmediateOp where
  | byte
  | short
deriving DecidableEq

/-- Opcodes with one unsigned byte. -/
inductive ByteOp where
  | loadConstant
  | load (tag : Tag)
  | store (tag : Tag)
  | newArray
deriving DecidableEq

/-- Opcodes with a 16-bit index. -/
inductive IndexOp where
  | getStatic
  | putStatic
  | getField
  | putField
  | invoke (kind : InvokeKind)
  | new
  | newRefArray
deriving DecidableEq

/-- Opcodes with a branch offset. -/
inductive BranchOp where
  /-- Compares an integer with zero. -/
  | ifInt (c : Condition)
  /-- Compares two integers. -/
  | ifIntPair (c : Condition)
  /-- Compares two references; `same` is the outcome that branches. -/
  | ifRefPair (same : Bool)
  | goto
  /-- Tests for null; `null` is the outcome that branches. -/
  | ifNull (null : Bool)
deriving DecidableEq

/-- The instruction set. -/
inductive Opcode where
  | plain (op : PlainOp)
  | immediate (op : ImmediateOp)
  | byteOperand (op : ByteOp)
  | index (op : IndexOp)
  | branch (op : BranchOp)
  | increment
  | tableSwitch
  | lookupSwitch
deriving DecidableEq

/-! ## Encoding -/

/-- Position in the order `int`, `float`, `ref` of the encodings. -/
def Tag.rank : Tag → UInt8
  | int => 0
  | float => 2
  | ref => 4

/-- Position of an element kind in the order of the encodings. -/
def Element.rank : Element → UInt8
  | int => 0
  | float => 2
  | ref => 4
  | byte => 5
  | char => 6
  | short => 7

/-- Position of a condition in the order of the encodings. -/
def Condition.rank : Condition → UInt8
  | eq => 0
  | ne => 1
  | lt => 2
  | ge => 3
  | gt => 4
  | le => 5

/-- The encoding of a binary integer operation. -/
def IntOp.byte : IntOp → UInt8
  | add => 0x60
  | sub => 0x64
  | mul => 0x68
  | shl => 0x78
  | shr => 0x7a
  | ushr => 0x7c
  | and => 0x7e
  | or => 0x80
  | xor => 0x82

/-- The encoding of a binary float operation. -/
def FloatOp.byte : FloatOp → UInt8
  | add => 0x62
  | sub => 0x66
  | mul => 0x6a
  | div => 0x6e
  | rem => 0x72

/-- The encoding of an opcode without operand. -/
def PlainOp.byte : PlainOp → UInt8
  | nop => 0x00
  | pushNull => 0x01
  | pushInt n => 0x02 + UInt8.ofNat n
  | pushFloat n => 0x0b + UInt8.ofNat n
  | load tag slot => 0x1a + 4 * tag.rank + UInt8.ofNat slot
  | store tag slot => 0x3b + 4 * tag.rank + UInt8.ofNat slot
  | arrayLoad element => 0x2e + element.rank
  | arrayStore element => 0x4f + element.rank
  | pop => 0x57
  | pop2 => 0x58
  | dup => 0x59
  | dupX1 => 0x5a
  | dup2 => 0x5c
  | swap => 0x5f
  | intBinary op => op.byte
  | intDiv => 0x6c
  | intRem => 0x70
  | intNeg => 0x74
  | floatBinary op => op.byte
  | floatNeg => 0x76
  | intToFloat => 0x86
  | floatToInt => 0x8b
  | narrow .byte => 0x91
  | narrow .char => 0x92
  | narrow .short => 0x93
  | floatCompareLess => 0x95
  | floatCompareGreater => 0x96
  | returnValue tag => 0xac + tag.rank
  | returnVoid => 0xb1
  | arrayLength => 0xbe

/-- The encoding of an opcode with a byte. -/
def ByteOp.byte : ByteOp → UInt8
  | loadConstant => 0x12
  | load tag => 0x15 + tag.rank
  | store tag => 0x36 + tag.rank
  | newArray => 0xbc

/-- The encoding of an opcode with an index. -/
def IndexOp.byte : IndexOp → UInt8
  | getStatic => 0xb2
  | putStatic => 0xb3
  | getField => 0xb4
  | putField => 0xb5
  | invoke .virtual => 0xb6
  | invoke .special => 0xb7
  | invoke .static => 0xb8
  | new => 0xbb
  | newRefArray => 0xbd

/-- The encoding of a branch. -/
def BranchOp.byte : BranchOp → UInt8
  | ifInt c => 0x99 + c.rank
  | ifIntPair c => 0x9f + c.rank
  | ifRefPair same => if same then 0xa5 else 0xa6
  | goto => 0xa7
  | ifNull null => if null then 0xc6 else 0xc7

/-! ## Lists of all opcodes -/

/-- All value kinds. -/
def Tag.all : List Tag := [int, float, ref]

/-- All element kinds. -/
def Element.all : List Element := [int, float, ref, byte, char, short]

/-- All conditions. -/
def Condition.all : List Condition := [eq, ne, lt, ge, gt, le]

/-- All binary integer operations. -/
def IntOp.all : List IntOp := [add, sub, mul, shl, shr, ushr, and, or, xor]

/-- All binary float operations. -/
def FloatOp.all : List FloatOp := [add, sub, mul, div, rem]

/-- All opcodes without operand. -/
def PlainOp.all : List PlainOp :=
  List.flatten
    [[nop, pushNull],
      (List.finRange 7).map pushInt,
      (List.finRange 3).map pushFloat,
      Tag.all.flatMap fun t => (List.finRange 4).map (load t),
      Tag.all.flatMap fun t => (List.finRange 4).map (store t),
      Element.all.map arrayLoad,
      Element.all.map arrayStore,
      [pop, pop2, dup, dupX1, dup2, swap],
      IntOp.all.map intBinary,
      [intDiv, intRem, intNeg],
      FloatOp.all.map floatBinary,
      [floatNeg, intToFloat, floatToInt],
      [narrow .byte, narrow .char, narrow .short],
      [floatCompareLess, floatCompareGreater],
      Tag.all.map returnValue,
      [returnVoid, arrayLength]]

/-- All opcodes with a byte. -/
def ByteOp.all : List ByteOp :=
  List.flatten
    [[loadConstant], Tag.all.map load, Tag.all.map store, [newArray]]

/-- All opcodes with an index. -/
def IndexOp.all : List IndexOp :=
  [getStatic, putStatic, getField, putField, invoke .virtual,
    invoke .special, invoke .static, new, newRefArray]

/-- All branches. -/
def BranchOp.all : List BranchOp :=
  List.flatten
    [Condition.all.map ifInt, Condition.all.map ifIntPair,
      [ifRefPair true, ifRefPair false, goto, ifNull true, ifNull false]]

namespace Opcode

/-- The encoding of an opcode. -/
def byte : Opcode → UInt8
  | plain op => op.byte
  | immediate .byte => 0x10
  | immediate .short => 0x11
  | byteOperand op => op.byte
  | index op => op.byte
  | branch op => op.byte
  | increment => 0x84
  | tableSwitch => 0xaa
  | lookupSwitch => 0xab

/-- Every opcode once. -/
def all : List Opcode :=
  List.flatten
    [PlainOp.all.map plain, [immediate .byte, immediate .short],
      ByteOp.all.map byteOperand, IndexOp.all.map index,
      BranchOp.all.map branch, [increment, tableSwitch, lookupSwitch]]

/-- The opcodes by their encodings, with gaps. -/
def table : Array (Option Opcode) :=
  Array.ofFn fun i : Fin 256 => all.find? (·.byte == UInt8.ofNat i)

/-- The opcode with the given encoding. -/
def ofByte? (b : UInt8) : Option Opcode :=
  table.getD b.toNat none

theorem ofByte?_eq_find? (b : UInt8) :
    ofByte? b = all.find? (·.byte == b) := by
  have h : b.toNat < 256 := b.toNat_lt
  have entry : table[b.toNat]? =
      some (all.find? (·.byte == UInt8.ofNat b.toNat)) := by
    rw [table, Array.getElem?_ofFn, dif_pos h]
  rw [ofByte?, Array.getD_eq_getD_getElem?, entry, UInt8.ofNat_toNat]
  rfl

/-- A decoded byte is the encoding of the opcode. -/
theorem byte_of_ofByte? {b : UInt8} {op : Opcode}
    (h : ofByte? b = some op) : op.byte = b := by
  rw [ofByte?_eq_find?] at h
  simpa using List.find?_some h

end Opcode

/-! ## Mnemonics -/

/-- First letter of the mnemonics for a kind of value. -/
def Tag.letter : Tag → String
  | int => "i"
  | float => "f"
  | ref => "a"

/-- First letter of the mnemonics for an element kind. -/
def Element.letter : Element → String
  | int => "i"
  | float => "f"
  | ref => "a"
  | byte => "b"
  | char => "c"
  | short => "s"

/-- Last letters of the mnemonics for a condition. -/
def Condition.ending : Condition → String
  | eq => "eq"
  | ne => "ne"
  | lt => "lt"
  | ge => "ge"
  | gt => "gt"
  | le => "le"

/-- Assembler name of a binary integer operation. -/
def IntOp.mnemonic : IntOp → String
  | add => "iadd"
  | sub => "isub"
  | mul => "imul"
  | shl => "ishl"
  | shr => "ishr"
  | ushr => "iushr"
  | and => "iand"
  | or => "ior"
  | xor => "ixor"

/-- Assembler name of a binary float operation. -/
def FloatOp.mnemonic : FloatOp → String
  | add => "fadd"
  | sub => "fsub"
  | mul => "fmul"
  | div => "fdiv"
  | rem => "frem"

/-- Assembler name of an opcode without operand. -/
def PlainOp.mnemonic : PlainOp → String
  | nop => "nop"
  | pushNull => "aconst_null"
  | pushInt n => if n = 0 then "iconst_m1" else s!"iconst_{n.val - 1}"
  | pushFloat n => s!"fconst_{n.val}"
  | load tag slot => tag.letter ++ s!"load_{slot.val}"
  | store tag slot => tag.letter ++ s!"store_{slot.val}"
  | arrayLoad element => element.letter ++ "aload"
  | arrayStore element => element.letter ++ "astore"
  | pop => "pop"
  | pop2 => "pop2"
  | dup => "dup"
  | dupX1 => "dup_x1"
  | dup2 => "dup2"
  | swap => "swap"
  | intBinary op => op.mnemonic
  | intDiv => "idiv"
  | intRem => "irem"
  | intNeg => "ineg"
  | floatBinary op => op.mnemonic
  | floatNeg => "fneg"
  | intToFloat => "i2f"
  | floatToInt => "f2i"
  | narrow .byte => "i2b"
  | narrow .char => "i2c"
  | narrow .short => "i2s"
  | floatCompareLess => "fcmpl"
  | floatCompareGreater => "fcmpg"
  | returnValue tag => tag.letter ++ "return"
  | returnVoid => "return"
  | arrayLength => "arraylength"

/-- Assembler name of an opcode with a byte. -/
def ByteOp.mnemonic : ByteOp → String
  | loadConstant => "ldc"
  | load tag => tag.letter ++ "load"
  | store tag => tag.letter ++ "store"
  | newArray => "newarray"

/-- Assembler name of an opcode with an index. -/
def IndexOp.mnemonic : IndexOp → String
  | getStatic => "getstatic"
  | putStatic => "putstatic"
  | getField => "getfield"
  | putField => "putfield"
  | invoke .virtual => "invokevirtual"
  | invoke .special => "invokespecial"
  | invoke .static => "invokestatic"
  | new => "new"
  | newRefArray => "anewarray"

/-- Assembler name of a branch. -/
def BranchOp.mnemonic : BranchOp → String
  | ifInt c => "if" ++ c.ending
  | ifIntPair c => "if_icmp" ++ c.ending
  | ifRefPair same => if same then "if_acmpeq" else "if_acmpne"
  | goto => "goto"
  | ifNull null => if null then "ifnull" else "ifnonnull"

namespace Opcode

/-- Assembler name of an opcode. -/
def mnemonic : Opcode → String
  | plain op => op.mnemonic
  | immediate .byte => "bipush"
  | immediate .short => "sipush"
  | byteOperand op => op.mnemonic
  | index op => op.mnemonic
  | branch op => op.mnemonic
  | increment => "iinc"
  | tableSwitch => "tableswitch"
  | lookupSwitch => "lookupswitch"

/-- The opcode with the given assembler name. -/
def ofMnemonic? (name : String) : Option Opcode :=
  all.find? (·.mnemonic == name)

/-! ## Properties of opcodes -/

/-- Bytes of the operand; the switches have no fixed number. -/
def operandLen? : Opcode → Option Nat
  | plain _ => some 0
  | immediate .byte => some 1
  | immediate .short => some 2
  | byteOperand _ => some 1
  | index _ => some 2
  | branch _ => some 2
  | increment => some 2
  | tableSwitch | lookupSwitch => none

/-- Local variable that the encoding itself names. -/
def implicitLocal? : Opcode → Option (Fin 4)
  | plain (.load _ slot) | plain (.store _ slot) => some slot
  | _ => none

/-- A jump to a single target, taken or not. -/
def isBranch : Opcode → Bool
  | branch _ => true
  | _ => false

/-- Leaves the method. -/
def isReturn : Opcode → Bool
  | plain (.returnValue _) | plain .returnVoid => true
  | _ => false

/-- Calls a method. -/
def isInvoke : Opcode → Bool
  | index (.invoke _) => true
  | _ => false

end Opcode

/-! ## Features -/

/-- Feature that an opcode may need. -/
inductive Feature where
  | arrays
  | switch
  | float
deriving DecidableEq

namespace Feature

/-- Name in diagnostics. -/
def name : Feature → String
  | arrays => "array"
  | switch => "switch"
  | float => "float"

/-- The profile has the feature. -/
def isEnabled (features : Features) : Feature → Bool
  | arrays => features.arrays
  | switch => features.switch
  | float => features.float

end Feature

/-- A float instruction needs float support. -/
def Tag.feature? : Tag → Option Feature
  | float => some .float
  | int | ref => none

/-- Feature that an opcode needs.  Access to the elements of a float array
counts as array access. -/
def Opcode.feature? : Opcode → Option Feature
  | plain op => match op with
    | .pushFloat _ | .floatBinary _ | .floatNeg | .intToFloat | .floatToInt
    | .floatCompareLess | .floatCompareGreater => some .float
    | .load tag _ | .store tag _ | .returnValue tag => tag.feature?
    | .arrayLoad _ | .arrayStore _ | .arrayLength => some .arrays
    | _ => none
  | byteOperand op => match op with
    | .load tag | .store tag => tag.feature?
    | .newArray => some .arrays
    | .loadConstant => none
  | index .newRefArray => some .arrays
  | tableSwitch | lookupSwitch => some .switch
  | immediate _ | index _ | branch _ | increment => none

end SlotVm
