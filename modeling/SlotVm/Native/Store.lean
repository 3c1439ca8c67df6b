import SlotVm.Heap.Basic
import SlotVm.Log
import SlotVm.Native.Console
import SlotVm.Stack

/-!
# The store

The store is what instructions and native methods work on together: the
operand stack, the heap, the console, the log, and the state `δ` of the
devices that the embedding adds.
-/

namespace SlotVm

/-- State that instructions and native methods share. -/
structure Store (δ : Type) where
  stack : Stack
  heap : Heap
  console : Console
  log : Log
  devices : δ

namespace Store

variable {δ α : Type}

/-- An action on the operand stack. -/
def onStack (a : Action Stack α) : Action (Store δ) α :=
  Action.onPart (·.stack) (fun stack s => { s with stack }) (.empty 0) a

/-- An action on the heap. -/
def onHeap (a : Action Heap α) : Action (Store δ) α :=
  Action.onPart (·.heap) (fun heap s => { s with heap }) (.empty 0 1) a

/-- A result that is read off the heap. -/
def readHeap (f : Heap → Except Fault α) : Action (Store δ) α :=
  Action.read fun s => f s.heap

/-- Puts a value on top of the operand stack. -/
def push (v : Value) : Action (Store δ) Unit := onStack (Stack.push v)

/-- Takes the top value. -/
def pop : Action (Store δ) Value := onStack Stack.pop

/-- Takes the top value as an integer operand of `op`. -/
def popInt (op : String) : Action (Store δ) Int32 := onStack (Stack.popInt op)

/-- Takes the top value as a float operand of `op`. -/
def popFloat (op : String) : Action (Store δ) Float32 :=
  onStack (Stack.popFloat op)

/-- Takes the top value as the handle of an object; `op` faults on null. -/
def popHandle (op : String) : Action (Store δ) UInt16 := do
  let v ← pop
  Action.lift (v.asHandle op)

/-- The value `depth` places below the top. -/
def peek (depth : Nat) : Action (Store δ) Value :=
  Action.read fun s => s.stack.peek depth

/-- Writes a slot of an object. -/
def storeSlot (handle : UInt16) (index : Nat) (v : Value) :
    Action (Store δ) Unit :=
  onHeap (Heap.store handle index v)

/-- Reads a slot of an object. -/
def loadSlot (handle : UInt16) (index : Nat) : Action (Store δ) Value :=
  readHeap (·.load handle index)

/-- Writes a text to the console. -/
def print (text : String) : Action (Store δ) Unit :=
  modify fun s => { s with console := s.console.write text }

/-- Records a log message. -/
def record (level : Level) (target : String) (text : Unit → String) :
    Action (Store δ) Unit :=
  modify fun s => { s with log := s.log.record level target text }

end Store

end SlotVm
