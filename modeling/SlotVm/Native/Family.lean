import SlotVm.Image.Basic
import SlotVm.Native.Ids
import SlotVm.Native.Store

/-!
# Native families

A family implements some native classes.  A method finds its arguments on
the operand stack, the last one on top, takes what it consumes and leaves
its result, if it has one.

Families have kinds, and the kinds have an order in which families are
asked.
-/

namespace SlotVm

/-- Kind of a native family. -/
inductive FamilyKind where
  /-- Root class. -/
  | object
  /-- Console streams and string buffers. -/
  | console
  | peripheral
  | display
  | robot
deriving DecidableEq

namespace FamilyKind

/-- Kinds in the order in which they are asked. -/
def all : List FamilyKind := [object, console, peripheral, display, robot]

/-- Position in the order. -/
def rank : FamilyKind → Nat
  | object => 0
  | console => 1
  | peripheral => 2
  | display => 3
  | robot => 4

/-- Name in diagnostics. -/
def name : FamilyKind → String
  | object => "object"
  | console => "stdio"
  | peripheral => "avr"
  | display => "lcd"
  | robot => "asuro"

/-- A profile with these families admits the kind.  The robot platform has
no separate peripherals. -/
def isEnabled (families : FamilySet) : FamilyKind → Bool
  | object => true
  | console => families.stdio
  | peripheral => families.avr && !families.asuro
  | display => families.lcd
  | robot => families.asuro

end FamilyKind

/-- An implementation of native classes. -/
structure Family (δ : Type) where
  name : String
  /-- The family implements the class. -/
  handles : UInt16 → Bool
  /-- Runs a method of one of the classes. -/
  invoke : Image → MethodRef → Action (Store δ) Unit

namespace Family

/-- The root class.  It has only a constructor, which takes its receiver. -/
def root {δ : Type} : Family δ where
  name := "object"
  handles classId := classId == Native.rootClass
  invoke _ r := do
    if r.methodId ≠ Native.constructorId then
      throw (.unknownNativeMethod r)
    let _ ← Store.pop

end Family

end SlotVm
