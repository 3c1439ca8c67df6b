import SlotVm.Machine.Call
import SlotVm.Machine.Data

/-!
# Executing instructions

`Machine.execute` runs one operation whose instruction has been fetched; the
position of the current call is already behind it.  There is a function for
each operand shape.
-/

namespace SlotVm.Machine

variable {δ : Type}

/-- An instruction after which execution goes on. -/
def proceed (a : Action (Machine δ) Unit) : Action (Machine δ) Flow := do
  a
  return .running

/-- Goes on at another position of the current method. -/
def jump (position : Nat) : Action (Machine δ) Unit :=
  updateFrame fun f => .ok { f with pc := position }

/-- Goes on at another position if the branch is taken. -/
def jumpIf (taken : Bool) (position : Nat) : Action (Machine δ) Unit :=
  if taken then jump position else pure ()

/-! ## Local variables -/

/-- Pushes a local variable. -/
def loadLocal (index : Nat) : Action (Machine δ) Unit := do
  let f ← Action.read frame
  let v ← Action.lift (f.getLocal index)
  onStore (Store.push v)

/-- Takes a value into a local variable. -/
def storeLocal (index : Nat) : Action (Machine δ) Unit := do
  let v ← onStore Store.pop
  updateFrame (·.setLocal index v)

/-- Adds to a local variable. -/
def incrementLocal (w : Width) (index : Nat) (delta : Int32) :
    Action (Machine δ) Unit :=
  updateFrame fun f => do
    let v ← f.getLocal index
    let n ← v.asInt Opcode.increment.mnemonic
    f.setLocal index (.int (w.wrap (n + delta)))

/-! ## The operand shapes -/

/-- Instructions without operand that change the store only. -/
def executeData (w : Width) (op : PlainOp) : Action (Store δ) Unit :=
  match op with
  | .pushNull => Store.push .null
  | .pushInt n => Data.pushInt w (Int32.ofNat n.val - 1)
  | .pushFloat n => Store.push (.float (Float32.ofNat n.val))
  | .arrayLoad _ => Data.arrayLoad op.mnemonic
  | .arrayStore _ => Data.arrayStore op.mnemonic
  | .pop => do let _ ← Store.pop
  | .pop2 => do let _ ← Store.onStack (Stack.popN 2)
  | .dup => Data.dup
  | .dupX1 => Data.dupX1
  | .dup2 => Data.dup2
  | .swap => Data.swap
  | .intBinary f => Data.intBinary w f
  | .intDiv => Data.intQuotient w op.mnemonic (· / ·)
  | .intRem => Data.intQuotient w op.mnemonic (· % ·)
  | .intNeg => Data.intUnary w op.mnemonic (- ·)
  | .floatBinary f => Data.floatBinary f
  | .floatNeg => do
      let x ← Store.popFloat op.mnemonic
      Store.push (.float (-x))
  | .intToFloat => do
      let n ← Store.popInt op.mnemonic
      Store.push (.float n.toFloat32)
  | .floatToInt => do
      let x ← Store.popFloat op.mnemonic
      Store.push (.int (Single.truncate w.minInt w.maxInt x))
  | .narrow kind => Data.intUnary w op.mnemonic kind.apply
  | .floatCompareLess => Data.floatCompare op.mnemonic (-1)
  | .floatCompareGreater => Data.floatCompare op.mnemonic 1
  | .arrayLength => Data.arrayLength w
  | .nop | .load .. | .store .. | .returnValue _ | .returnVoid => pure ()

/-- Instructions without operand. -/
def executePlain (w : Width) (op : PlainOp) : Action (Machine δ) Flow :=
  match op with
  | .load _ slot => proceed (loadLocal slot.val)
  | .store _ slot => proceed (storeLocal slot.val)
  | .returnValue _ => do
      let v ← onStore Store.pop
      returnFrom (some v)
  | .returnVoid => returnFrom none
  | op => proceed (onStore (executeData w op))

/-- Refuses what needs float support. -/
def needFloats (config : Config) (op : Opcode) : Action (Store δ) Unit :=
  if config.features.float then pure ()
  else throw (.unsupportedOpcode op.byte Feature.float.name)

/-- Pushes a constant of the pool. -/
def loadConstant (p : Program) (index : UInt8) : Action (Store δ) Unit := do
  match ← Action.lift (p.image.constant index.toNat) with
  | .int n => Data.pushInt p.config.word n
  | .float x =>
      needFloats p.config (.byteOperand .loadConstant)
      Store.push (.float x)
  | .str _ => Store.push (.const index.toUInt16)

/-- Allocates an array with the element kind of a type code. -/
def newArray (p : Program) (typeCode : UInt8) : Action (Store δ) Unit := do
  match ArrayKind.ofTypeCode? typeCode with
  | none => throw (.invalidImage (.arrayType typeCode))
  | some element =>
      if element = .float then
        needFloats p.config (.byteOperand .newArray)
      Data.newArray element

/-- Instructions with a byte. -/
def executeByte (p : Program) (op : ByteOp) (operand : UInt8) :
    Action (Machine δ) Unit :=
  match op with
  | .loadConstant => onStore (loadConstant p operand)
  | .load _ => loadLocal operand.toNat
  | .store _ => storeLocal operand.toNat
  | .newArray => onStore (newArray p operand)

/-- Makes an instance of a class. -/
def newObject (p : Program) (classId : UInt16) : Action (Store δ) Unit := do
  if p.config.native.Contains classId then
    Bridge.construct classId
  else
    let c ← Action.lift (p.image.classOf classId)
    Data.newObject c

/-- Instructions with an index. -/
def executeIndex (p : Program) (op : IndexOp) (operand : UInt16) :
    Action (Machine δ) Unit := do
  match op with
  | .getStatic =>
      let m ← get
      onStore (Data.pushSlot m.statics operand.toNat)
  | .putStatic =>
      let m ← get
      onStore (Data.popIntoSlot m.statics operand.toNat)
  | .getField => onStore (Data.getField operand.toNat)
  | .putField => onStore (Data.putField operand.toNat)
  | .invoke kind => invoke kind operand
  | .new => onStore (newObject p operand)
  | .newRefArray => onStore (Data.newArray .reference)

/-- Whether a branch is taken. -/
def branchTaken (op : BranchOp) : Action (Store δ) Bool := do
  match op with
  | .ifInt c =>
      let a ← Store.popInt op.mnemonic
      return c.holds a 0
  | .ifIntPair c =>
      let (a, b) ← Data.popIntPair op.mnemonic
      return c.holds a b
  | .ifRefPair same =>
      let b ← Store.pop
      let a ← Store.pop
      return a.sameReference b == same
  | .goto => return true
  | .ifNull null =>
      let a ← Store.pop
      return a.isNull == null

/-- Target of a table switch for a key. -/
def tableTarget (fallback : Nat) (low : Int32) (targets : List Nat)
    (key : Int32) : Nat :=
  let i := key.toInt - low.toInt
  if 0 ≤ i then targets.getD i.toNat fallback else fallback

/-- Target of a lookup switch for a key. -/
def lookupTarget (fallback : Nat) (pairs : List (Int32 × Nat))
    (key : Int32) : Nat :=
  (pairs.lookup key).getD fallback

/-- Runs an operation. -/
def execute (o : Operation) : Action (Machine δ) Flow := do
  let p ← getProgram
  let w := p.config.word
  match o with
  | .plain op => executePlain w op
  | .immediate _ n => proceed (onStore (Data.pushInt w n))
  | .byteOperand op operand => proceed (executeByte p op operand)
  | .index op operand => proceed (executeIndex p op operand)
  | .branch op target => proceed do
      let taken ← onStore (branchTaken op)
      jumpIf taken target
  | .increment slot delta =>
      proceed (incrementLocal w slot.toNat delta.toInt32)
  | .tableSwitch fallback low targets => proceed do
      let key ← onStore (Store.popInt o.opcode.mnemonic)
      jump (tableTarget fallback low targets key)
  | .lookupSwitch fallback pairs => proceed do
      let key ← onStore (Store.popInt o.opcode.mnemonic)
      jump (lookupTarget fallback pairs key)

end SlotVm.Machine
