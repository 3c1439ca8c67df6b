import SlotVm.Value

/-!
# The arena

An arena is a row of slots, all of which are there from the beginning, and a
mark.  The slots below the mark are handed out.  A request moves the mark and
touches no slot.
-/

namespace SlotVm

/-- A row of slots, the first of which are handed out. -/
structure Arena where
  /-- All slots, handed out or not. -/
  cells : Array Value
  /-- Number of slots that are handed out. -/
  top : Nat

namespace Arena

/-- An arena with nothing handed out. -/
def empty (capacity : Nat) : Arena := ⟨Array.replicate capacity .null, 0⟩

/-- Number of slots. -/
def capacity (a : Arena) : Nat := a.cells.size

/-- Slots handed out. -/
def used (a : Arena) : Nat := a.top

/-- Slots that are left. -/
def remaining (a : Arena) : Nat := a.capacity - a.top

/-- The slots that are handed out. -/
def slots (a : Arena) : Array Value := a.cells.take a.top

/-- Hands out `count` slots if they are left, and gives the first one.  They
hold what they held before. -/
def allocate? (a : Arena) (count : Nat) : Option (Nat × Arena) :=
  if a.remaining < count then none
  else some (a.top, { a with top := a.top + count })

/-- Sets a slot. -/
def write (a : Arena) (slot : Nat) (v : Value) : Arena :=
  { a with cells := a.cells.setIfInBounds slot v }

/-- Sets `count` slots from the slot `first` on. -/
def fill (a : Arena) (first : Nat) (v : Value) : Nat → Arena
  | 0 => a
  | count + 1 => (a.fill first v count).write (first + count) v

end Arena

end SlotVm
