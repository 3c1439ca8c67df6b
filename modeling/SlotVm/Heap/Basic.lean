import SlotVm.Action
import SlotVm.Heap.Arena
import SlotVm.Heap.Object

/-!
# The heap

The heap is an arena with a table of the objects in it.  A handle is a
position in the table.  Objects lie end to end in the order of their
handles, and nothing is ever reclaimed.

A request is refused if the arena has too few slots left or the table is
full, and a refused request only counts as refused.
-/

namespace SlotVm

/-- Counters of a heap. -/
structure HeapStats where
  allocations : Nat
  /-- Requests that were refused. -/
  refused : Nat
  slotsInUse : Nat
  /-- Slots of the largest allocation. -/
  largest : Nat
deriving DecidableEq

/-- A bounded heap. -/
structure Heap where
  arena : Arena
  /-- Object table; a handle is a position in it. -/
  objects : Array Header
  /-- Bytes of a slot. -/
  slotBytes : Nat
  stats : HeapStats

namespace Heap

/-- Handles have 16 bits, and the table has no more entries. -/
def maxObjects : Nat := 65536

/-- An empty heap of `bytes` bytes with slots of one word. -/
def empty (bytes : Nat) (word : Nat) : Heap where
  arena := .empty (bytes / word)
  objects := #[]
  slotBytes := word
  stats := ⟨0, 0, 0, 0⟩

/-- Capacity in slots. -/
def capacity (h : Heap) : Nat := h.arena.capacity

/-- Slots handed out. -/
def used (h : Heap) : Nat := h.arena.used

/-- Slots that are left. -/
def free (h : Heap) : Nat := h.arena.remaining

/-- Bytes that are left. -/
def freeBytes (h : Heap) : Nat := h.free * h.slotBytes

/-- Number of objects. -/
def objectCount (h : Heap) : Nat := h.objects.size

/-! ## Allocation -/

/-- The heap with a new object behind all others, for which the arena has
handed out the slots. -/
def enter (h : Heap) (arena : Arena) (entry : Header) : Heap :=
  { h with
    arena
    objects := h.objects.push entry
    stats :=
      { h.stats with
        allocations := h.stats.allocations + 1
        slotsInUse := arena.used
        largest := max h.stats.largest entry.len } }

/-- The heap with one more refused request. -/
def refuse (h : Heap) : Heap :=
  { h with stats := { h.stats with refused := h.stats.refused + 1 } }

/-- Allocates `count` slots, and zeroes them or leaves them as they are. -/
def allocateKind (kind : ObjectKind) (zeroed : Bool) (count : Nat) :
    Action Heap UInt16 := fun h =>
  if maxObjects ≤ h.objects.size then
    .error (.heapExhausted count h.free) h.refuse
  else
    match h.arena.allocate? count with
    | none => .error (.heapExhausted count h.free) h.refuse
    | some (offset, arena) =>
        let arena :=
          if zeroed then arena.fill offset kind.zeroValue count else arena
        .ok (UInt16.ofNat h.objects.size)
          (h.enter arena ⟨offset, count, kind⟩)

/-- Allocates an untyped block. -/
def allocate (zeroed : Bool) (count : Nat) : Action Heap UInt16 :=
  allocateKind .chunk zeroed count

/-- Allocates an instance of a class. -/
def allocateObject (classId : UInt16) (fields : Nat) : Action Heap UInt16 :=
  allocateKind (.object classId) true fields

/-- Allocates an array. -/
def allocateArray (element : ArrayKind) (len : Nat) : Action Heap UInt16 :=
  allocateKind (.array element) true len

/-! ## Access -/

/-- The handle names an object. -/
def Contains (h : Heap) (handle : UInt16) : Prop :=
  handle.toNat < h.objects.size

instance (h : Heap) (handle : UInt16) : Decidable (h.Contains handle) :=
  inferInstanceAs (Decidable (_ < _))

/-- The table entry of an object. -/
def header (h : Heap) (handle : UInt16) : Except Fault Header :=
  match h.objects[handle.toNat]? with
  | some entry => .ok entry
  | none => .error (.invalidReference handle)

/-- Number of slots of an object. -/
def len (h : Heap) (handle : UInt16) : Except Fault Nat := do
  let entry ← h.header handle
  return entry.len

/-- All slots of an object. -/
def slots (h : Heap) (handle : UInt16) : Except Fault (Array Value) := do
  let entry ← h.header handle
  return h.arena.cells.extract entry.offset (entry.offset + entry.len)

/-- Reads one slot of an object. -/
def load (h : Heap) (handle : UInt16) (index : Nat) :
    Except Fault Value := do
  let entry ← h.header handle
  if index < entry.len then
    return h.arena.cells.getD (entry.offset + index) .null
  else
    throw (.slotOutOfBounds index entry.len)

/-- The heap with one slot of the arena replaced. -/
def write (h : Heap) (slot : Nat) (v : Value) : Heap :=
  { h with arena := h.arena.write slot v }

/-- Writes one slot of an object. -/
def store (handle : UInt16) (index : Nat) (v : Value) : Action Heap Unit :=
  fun h =>
    match h.header handle with
    | .error e => .error e h
    | .ok entry =>
        if index < entry.len then
          .ok () (h.write (entry.offset + index) v)
        else
          .error (.slotOutOfBounds index entry.len) h

end Heap

end SlotVm
