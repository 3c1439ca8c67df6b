import SlotVm.Value

/-!
# Call frames

A frame is one active call of a method with code.  It has a position in the
code and local variables, the arguments first; its operands are the part of
the operand stack above `base`.
-/

namespace SlotVm

/-- An active call. -/
structure Frame where
  /-- Index of the method in the image. -/
  method : Nat
  /-- Position of the next instruction. -/
  pc : Nat
  locals : Array Value
  /-- Size of the operand stack when the call began, without its
  arguments. -/
  base : Nat

namespace Frame

/-- A call that begins with the given arguments and at least `count`
locals; those behind the arguments are null. -/
def enter (method count : Nat) (args : Array Value) (base : Nat) : Frame where
  method
  pc := 0
  locals := args ++ Array.replicate (count - args.size) .null
  base

/-- Reads a local variable. -/
def getLocal (f : Frame) (index : Nat) : Except Fault Value :=
  match f.locals[index]? with
  | some v => .ok v
  | none => .error (.invalidLocal index f.locals.size)

/-- Writes a local variable. -/
def setLocal (f : Frame) (index : Nat) (v : Value) : Except Fault Frame :=
  if index < f.locals.size then
    .ok { f with locals := f.locals.setIfInBounds index v }
  else
    .error (.invalidLocal index f.locals.size)

end Frame

end SlotVm
