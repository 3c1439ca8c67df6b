import SlotVm.Action
import SlotVm.Value

/-!
# The operand stack

All calls share one operand stack of bounded size.  Each call owns the part
above its base, which is the stack's `floor` while that call is active.  No
operation reads or removes a value below the floor, so a callee cannot touch
what belongs to its callers.
-/

namespace SlotVm

/-- A bounded stack with a floor. -/
structure Stack where
  /-- Contents, bottom first. -/
  values : Array Value
  /-- Greatest number of values. -/
  limit : Nat
  /-- Number of values that are out of reach. -/
  floor : Nat

namespace Stack

/-- An empty stack. -/
def empty (limit : Nat) : Stack := ⟨#[], limit, 0⟩

/-- Number of values. -/
def size (s : Stack) : Nat := s.values.size

/-- Number of values within reach. -/
def available (s : Stack) : Nat := s.values.size - s.floor

/-- Puts a value on top. -/
def push (v : Value) : Action Stack Unit := fun s =>
  if s.values.size < s.limit then
    .ok () { s with values := s.values.push v }
  else
    .error (.stackOverflow s.limit) s

/-- Takes the top value. -/
def pop : Action Stack Value := fun s =>
  if h : s.floor < s.values.size then
    .ok s.values[s.values.size - 1] { s with values := s.values.pop }
  else
    .error .stackUnderflow s

/-- Takes the top value as an integer operand of `op`.  A value of another
kind is gone too. -/
def popInt (op : String) : Action Stack Int32 := do
  let v ← pop
  Action.lift (v.asInt op)

/-- Takes the top value as a float operand of `op`. -/
def popFloat (op : String) : Action Stack Float32 := do
  let v ← pop
  Action.lift (v.asFloat op)

/-- The value `depth` places below the top. -/
def peek (s : Stack) (depth : Nat) : Except Fault Value :=
  if h : depth < s.available then
    have : s.values.size - 1 - depth < s.values.size := by
      unfold available at h; omega
    .ok s.values[s.values.size - 1 - depth]
  else
    .error .stackUnderflow

/-- Takes the top `count` values, bottom first. -/
def popN (count : Nat) : Action Stack (Array Value) := fun s =>
  if count ≤ s.available then
    let rest := s.values.size - count
    .ok (s.values.extract rest s.values.size)
      { s with values := s.values.take rest }
  else
    .error .stackUnderflow s

/-- Moves the floor. -/
def setFloor (floor : Nat) (s : Stack) : Stack := { s with floor }

/-- Drops all values above `depth` and lowers a higher floor to it. -/
def truncate (depth : Nat) (s : Stack) : Stack :=
  { s with values := s.values.take depth, floor := min s.floor depth }

end Stack

end SlotVm
