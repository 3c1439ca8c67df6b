import SlotVm.Decimal.Layout
import SlotVm.Fault

/-!
# Values

A slot of the operand stack, of the locals, of an object or of an array
holds a `Value`.  References are constructors of their own, so a reference
is never read as a number and a number is never followed.

A slot of an object that nobody has written holds `zero`.  It carries no
type; the reading operation decides, and it is the integer zero, the float
zero and the null reference.
-/

namespace SlotVm

/-- Content of one slot. -/
inductive Value where
  | null
  /-- A zeroed slot that nobody has written. -/
  | zero
  | int (n : Int32)
  | float (x : Float32)
  /-- Handle of an object or array in the heap. -/
  | ref (handle : UInt16)
  /-- Index of a string in the constant pool. -/
  | const (index : UInt16)
deriving Inhabited

namespace Value

/-- The kind of a value, as faults name it. -/
def kindName : Value → String
  | null => "null"
  | zero => "zero"
  | int _ => "int"
  | float _ => "float"
  | ref _ => "ref"
  | const _ => "const"

/-- The value reads as the null reference. -/
def isNull : Value → Bool
  | null | zero => true
  | _ => false

/-- The value points at an object or a pooled string. -/
def isReference : Value → Bool
  | ref _ | const _ => true
  | _ => false

/-- Comparison of two references.  All nulls are one, and the two zeros of
single precision count as equal, while a NaN equals nothing. -/
def sameReference : Value → Value → Bool
  | int a, int b => a == b
  | float x, float y => x == y
  | ref a, ref b => a == b
  | const a, const b => a == b
  | a, b => a.isNull && b.isNull

/-- Reads an integer operand of `op`. -/
def asInt (op : String) : Value → Except Fault Int32
  | int n => .ok n
  | zero => .ok 0
  | v => .error (.typeMismatch op "int" v.kindName)

/-- Reads a float operand of `op`. -/
def asFloat (op : String) : Value → Except Fault Float32
  | float x => .ok x
  | zero => .ok 0.0
  | v => .error (.typeMismatch op "float" v.kindName)

/-- Reads the handle of an object or array; `op` faults on null. -/
def asHandle (op : String) : Value → Except Fault UInt16
  | ref r => .ok r
  | null | zero => .error (.nullReference op)
  | v => .error (.typeMismatch op "ref" v.kindName)

/-- The text of a handle. -/
def handleText (handle : UInt16) : String := s!"@{handle}"

/-- The text of a value in diagnostics. -/
def text : Value → String
  | null => "null"
  | zero => "0"
  | int n => toString n
  | float x => Decimal.Layout.listed.text x
  | ref r => handleText r
  | const i => s!"#{i}"

end Value

end SlotVm
