import SlotVm.Code.Opcode
import SlotVm.Single.Basic

/-!
# Arithmetic of the instructions

Integer operations are computed in 32 bits and wrapped to the width of the
machine afterwards, which gives the same as exact arithmetic wrapped once.
Only the unsigned shift has to know the width, because it shifts zeros into
the highest bit of an integer.
-/

namespace SlotVm

/-- The highest shift distance; only its bits of a distance count. -/
def shiftMask : Int32 := 31

/-- Unsigned shift to the right within the width. -/
def Width.shiftRightUnsigned (w : Width) (a distance : Int32) : Int32 :=
  let bits := a.toUInt32.toNat % w.intCount
  Int32.ofNat (bits >>> (distance &&& shiftMask).toInt.toNat)

/-- The result of a binary integer operation before it is wrapped. -/
def IntOp.apply (w : Width) (op : IntOp) (a b : Int32) : Int32 :=
  match op with
  | add => a + b
  | sub => a - b
  | mul => a * b
  | shl => a <<< (b &&& shiftMask)
  | shr => a >>> (b &&& shiftMask)
  | ushr => w.shiftRightUnsigned a b
  | and => a &&& b
  | or => a ||| b
  | xor => a ^^^ b

/-- The result of a binary float operation. -/
def FloatOp.apply (op : FloatOp) (x y : Float32) : Float32 :=
  match op with
  | add => x + y
  | sub => x - y
  | mul => x * y
  | div => x / y
  | rem => Single.rem x y

/-- The integer cut to a smaller type. -/
def Narrowing.apply (kind : Narrowing) (n : Int32) : Int32 :=
  match kind with
  | byte => n.toInt8.toInt32
  | char => n &&& 0xffff
  | short => n.toInt16.toInt32

/-- The condition holds between two integers. -/
def Condition.holds (c : Condition) (a b : Int32) : Bool :=
  match c with
  | eq => a == b
  | ne => a != b
  | lt => a < b
  | ge => b ≤ a
  | gt => b < a
  | le => a ≤ b

end SlotVm
