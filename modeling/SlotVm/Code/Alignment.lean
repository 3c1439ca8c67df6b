/-!
# Alignment

The operands of a switch and the code of a method start at a multiple of
four.  What is written is filled up by pushing bytes until the position is
such a multiple; what is read is found by clearing the low bits of a position
that lies far enough behind.
-/

namespace SlotVm

/-- The bytes that are pushed behind `size` others, one at a time, until
their number is a multiple of four. -/
@[semireducible]
def padding (fill : UInt8) (size : Nat) : List UInt8 :=
  if size % 4 = 0 then [] else fill :: padding fill (size + 1)
termination_by (4 - size % 4) % 4

/-- The number without the bits of the mask. -/
def clearBits (n mask : Nat) : Nat := n ^^^ (n &&& mask)

end SlotVm
