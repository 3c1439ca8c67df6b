import SlotVm.Value

/-!
# What an allocation holds

An allocation is an untyped block, an instance of a class or an array.  The
element kind of an array fixes its type code, the value of a fresh element
and how a stored value is narrowed to what an element can hold.
-/

namespace SlotVm

/-- Element kind of an array. -/
inductive ArrayKind where
  | boolean
  | char
  | float
  | byte
  | short
  | int
  | reference
deriving DecidableEq

namespace ArrayKind

/-- All element kinds. -/
def all : List ArrayKind :=
  [boolean, char, float, byte, short, int, reference]

/-- Type code in an array allocation.  Reference arrays have an instruction
of their own and no code. -/
def typeCode : ArrayKind → Option UInt8
  | boolean => some 4
  | char => some 5
  | float => some 6
  | byte => some 8
  | short => some 9
  | int => some 10
  | reference => none

/-- The element kind of a type code. -/
def ofTypeCode? (code : UInt8) : Option ArrayKind :=
  all.find? (·.typeCode == some code)

/-- Name of the element type. -/
def name : ArrayKind → String
  | boolean => "boolean"
  | char => "char"
  | float => "float"
  | byte => "byte"
  | short => "short"
  | int => "int"
  | reference => "reference"

/-- Content of a fresh element. -/
def zeroValue : ArrayKind → Value
  | float => .float 0.0
  | reference => .null
  | boolean | char | byte | short | int => .int 0

/-- Brings a value that `op` stores into what an element can hold. -/
def narrow (k : ArrayKind) (op : String) (v : Value) : Except Fault Value :=
  match k with
  | boolean => return .int ((← v.asInt op) &&& 1)
  | byte => return .int (← v.asInt op).toInt8.toInt32
  | char => return .int ((← v.asInt op) &&& 0xffff)
  | short => return .int (← v.asInt op).toInt16.toInt32
  | int => return .int (← v.asInt op)
  | float => return .float (← v.asFloat op)
  | reference =>
      if v.isNull || v.isReference then .ok v
      else .error (.typeMismatch op "ref" v.kindName)

theorem ofTypeCode?_typeCode {k : ArrayKind} {code : UInt8}
    (h : k.typeCode = some code) : ofTypeCode? code = some k := by
  cases k <;> cases h <;> decide

end ArrayKind

/-- Kind of an allocation. -/
inductive ObjectKind where
  /-- Untyped block: a native object or the static fields. -/
  | chunk
  | object (classId : UInt16)
  | array (element : ArrayKind)
deriving DecidableEq

namespace ObjectKind

/-- Content of a zeroed slot. -/
def zeroValue : ObjectKind → Value
  | array k => k.zeroValue
  | chunk | object _ => .zero

/-- Class of an instance. -/
def classId? : ObjectKind → Option UInt16
  | object c => some c
  | chunk | array _ => none

/-- Element kind of an array. -/
def element? : ObjectKind → Option ArrayKind
  | array k => some k
  | chunk | object _ => none

end ObjectKind

/-- Entry of the object table: what an allocation holds and where. -/
structure Header where
  /-- First slot in the arena. -/
  offset : Nat
  /-- Number of slots. -/
  len : Nat
  kind : ObjectKind
deriving DecidableEq

end SlotVm
