import SlotVm.Heap.Basic
import SlotVm.Image.Basic

/-!
# Strings

A string operand is a pooled string or an array of characters or bytes in
the heap.  A string buffer, a block of one slot that holds its array, is
read as the string that it holds.

Heap strings have 16 bits per character.  A character above is cut, and a
slot that is half of a pair reads as the replacement character; `fold` says
what is left of a character.
-/

namespace SlotVm.Strings

/-- The character of a 16-bit unit. -/
def ofUnit (unit : Nat) : Char :=
  if h : unit.isValidChar then Char.ofNatAux unit h else '\ufffd'

/-- The character of an integer, of which the low 16 bits count. -/
def ofInt (n : Int32) : Char := ofUnit (n.toUInt32.toNat % 65536)

/-- The unit that a heap string keeps of a character. -/
def unit (c : Char) : Nat := c.toNat % 65536

/-- What a heap string keeps of a character. -/
def fold (c : Char) : Char := ofUnit (unit c)

/-- The text of a numeric operand of `op`. -/
def intText (op : String) (v : Value) : Except Fault String := do
  let n ← v.asInt op
  return toString n

/-- The text of a character operand of `op`. -/
def charText (op : String) (v : Value) : Except Fault String := do
  let n ← v.asInt op
  return String.singleton (ofInt n)

/-- The text of a float operand of `op`. -/
def floatText (op : String) (v : Value) : Except Fault String := do
  let x ← v.asFloat op
  return Decimal.Layout.printed.text x

/-! ## Reading -/

/-- The elements of a string array as characters. -/
def readUnits (char : Int32 → Char) (slots : Array Value) :
    Except Fault String := do
  let chars ← slots.toList.mapM fun v => do
    let n ← v.asInt "string"
    return char n
  return String.ofList chars

/-- Refuses an operand that is not a string. -/
def notString {α : Type} (expected found : String) : Except Fault α :=
  .error (.typeMismatch "string" expected found)

/-- Reads a string in the heap.  The fuel bounds how many string buffers
stand in front of the array.  It is there for a buffer that holds itself,
directly or through others: to read such a buffer without a bound is to
recurse forever, and the host aborts when its call stack is used up.  No
answer is right for it; here it is a fault. -/
def readHeap (heap : Heap) : Nat → UInt16 → Except Fault String
  | 0, _ => notString "string" "object"
  | fuel + 1, handle => do
      let entry ← heap.header handle
      match entry.kind with
      | .array .char => readUnits ofInt (← heap.slots handle)
      | .array .byte =>
          readUnits (fun n => Char.ofNat n.toUInt32.toUInt8.toNat)
            (← heap.slots handle)
      | .chunk =>
          if entry.len = 1 then
            match ← heap.load handle 0 with
            | .null | .zero => return ""
            | .ref chars => readHeap heap fuel chars
            | v => notString "char[]" v.kindName
          else
            notString "string" "object"
      | _ => notString "string" "object"

/-- Reads a string operand.  A chain of buffers that does not come back to
itself has no more members than the heap has objects, so the fuel is enough
for it. -/
def read (heap : Heap) (image : Image) : Value → Except Fault String
  | .null | .zero => .ok "null"
  | .const index => image.string index.toNat
  | .ref handle => readHeap heap (heap.objectCount + 1) handle
  | v => notString "string" v.kindName

/-! ## Writing -/

/-- Stores units as the elements of an array, from the element `first` on. -/
def storeUnits (handle : UInt16) : Nat → List Nat → Action Heap Unit
  | _, [] => pure ()
  | first, n :: rest => do
      Heap.store handle first (.int (Int32.ofNat n))
      storeUnits handle (first + 1) rest

/-- Allocates a text as an array of characters. -/
def allocate (text : String) : Action Heap UInt16 := do
  let units := text.toList.map unit
  let handle ← Heap.allocateArray .char units.length
  storeUnits handle 0 units
  return handle

end SlotVm.Strings
