import SlotVm.Image.Basic
import SlotVm.Machine.Arithmetic
import SlotVm.Native.Store

/-!
# Instructions on the store

The instructions here change the operand stack and the heap only.  Each one
takes its operands in the order in which it checks them, and what it has
taken before a fault stays taken.
-/

namespace SlotVm.Data

variable {δ : Type}

/-- Pushes an integer, wrapped to the width. -/
def pushInt (w : Width) (n : Int32) : Action (Store δ) Unit :=
  Store.push (.int (w.wrap n))

/-- Takes the second and then the first of two integers. -/
def popIntPair (op : String) : Action (Store δ) (Int32 × Int32) := do
  let b ← Store.popInt op
  let a ← Store.popInt op
  return (a, b)

/-- Takes the second and then the first of two floats. -/
def popFloatPair (op : String) : Action (Store δ) (Float32 × Float32) := do
  let y ← Store.popFloat op
  let x ← Store.popFloat op
  return (x, y)

/-! ## Numbers -/

/-- A binary integer operation. -/
def intBinary (w : Width) (op : IntOp) : Action (Store δ) Unit := do
  let (a, b) ← popIntPair op.mnemonic
  pushInt w (op.apply w a b)

/-- Truncating division or its remainder. -/
def intQuotient (w : Width) (op : String) (f : Int32 → Int32 → Int32) :
    Action (Store δ) Unit := do
  let (a, b) ← popIntPair op
  if b = 0 then
    throw .divisionByZero
  pushInt w (f a b)

/-- A unary integer operation. -/
def intUnary (w : Width) (op : String) (f : Int32 → Int32) :
    Action (Store δ) Unit := do
  let a ← Store.popInt op
  pushInt w (f a)

/-- A binary float operation. -/
def floatBinary (op : FloatOp) : Action (Store δ) Unit := do
  let (x, y) ← popFloatPair op.mnemonic
  Store.push (.float (op.apply x y))

/-- Comparison of two floats. -/
def floatCompare (op : String) (unordered : Int32) :
    Action (Store δ) Unit := do
  let (x, y) ← popFloatPair op
  Store.push (.int (Single.compare x y unordered))

/-! ## The operand stack -/

/-- Doubles the top value. -/
def dup : Action (Store δ) Unit := do
  let v ← Store.peek 0
  Store.push v

/-- Doubles the top value below the second. -/
def dupX1 : Action (Store δ) Unit := do
  let v1 ← Store.pop
  let v2 ← Store.pop
  Store.push v1
  Store.push v2
  Store.push v1

/-- Doubles the top two values. -/
def dup2 : Action (Store δ) Unit := do
  let v1 ← Store.peek 0
  let v2 ← Store.peek 1
  Store.push v2
  Store.push v1

/-- Exchanges the top two values. -/
def swap : Action (Store δ) Unit := do
  let v1 ← Store.pop
  let v2 ← Store.pop
  Store.push v1
  Store.push v2

/-! ## Arrays -/

/-- Takes the handle of an array and gives it with the element kind. -/
def popArray (op : String) : Action (Store δ) (UInt16 × ArrayKind) := do
  let handle ← Store.popHandle op
  let entry ← Store.readHeap (·.header handle)
  match entry.kind.element? with
  | some element => return (handle, element)
  | none => throw (.typeMismatch op "array" "object")

/-- The position of an element. -/
def elementAt (handle : UInt16) (index : Int32) :
    Action (Store δ) Nat := do
  let length ← Store.readHeap (·.len handle)
  if 0 ≤ index.toInt ∧ index.toInt < length then
    return index.toInt.toNat
  else
    throw (.arrayIndexOutOfBounds index length)

/-- Reads an element. -/
def arrayLoad (op : String) : Action (Store δ) Unit := do
  let index ← Store.popInt op
  let (handle, _) ← popArray op
  let position ← elementAt handle index
  let v ← Store.loadSlot handle position
  Store.push v

/-- Writes an element. -/
def arrayStore (op : String) : Action (Store δ) Unit := do
  let v ← Store.pop
  let index ← Store.popInt op
  let (handle, element) ← popArray op
  let position ← elementAt handle index
  let narrowed ← Action.lift (element.narrow op v)
  Store.storeSlot handle position narrowed

/-- Replaces a length by a new array. -/
def newArray (element : ArrayKind) : Action (Store δ) Unit := do
  let size ← Store.popInt "newarray"
  if size < 0 then
    throw (.negativeArraySize size)
  let handle ← Store.onHeap (Heap.allocateArray element size.toInt.toNat)
  Store.push (.ref handle)

/-- Replaces an array by its length. -/
def arrayLength (w : Width) : Action (Store δ) Unit := do
  let (handle, _) ← popArray "arraylength"
  let length ← Store.readHeap (·.len handle)
  pushInt w (Int32.ofNat length)

/-! ## Objects -/

/-- Pushes a slot of an object. -/
def pushSlot (handle : UInt16) (index : Nat) : Action (Store δ) Unit := do
  let v ← Store.loadSlot handle index
  Store.push v

/-- Takes a value and writes it into a slot of an object. -/
def popIntoSlot (handle : UInt16) (index : Nat) :
    Action (Store δ) Unit := do
  let v ← Store.pop
  Store.storeSlot handle index v

/-- Replaces an object by one of its fields. -/
def getField (index : Nat) : Action (Store δ) Unit := do
  let handle ← Store.popHandle "getfield"
  pushSlot handle index

/-- Takes a value and an object and writes a field. -/
def putField (index : Nat) : Action (Store δ) Unit := do
  let v ← Store.pop
  let handle ← Store.popHandle "putfield"
  Store.storeSlot handle index v

/-- Pushes a new instance of a class. -/
def newObject (c : ClassDescriptor) : Action (Store δ) Unit := do
  let handle ← Store.onHeap (Heap.allocateObject c.id c.fields.toNat)
  Store.push (.ref handle)

end SlotVm.Data
