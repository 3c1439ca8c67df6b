import SlotVm.Native.Family
import SlotVm.Native.Strings

/-!
# Console classes

The console family implements the output stream, the input stream and the
string buffer.

The receiver of a stream method is a number that is taken and ignored.  A
method that prints looks at its argument first and takes it only when its
text is known, so a fault leaves the operands in place.

A string buffer is a block of one slot that holds an array with the whole
text, or nothing while it is empty.  Every append makes a new array.
-/

namespace SlotVm.Stdio

variable {δ : Type}

/-! ## Output stream -/

/-- Kind of argument that is turned into text. -/
inductive Argument where
  | string
  | int
  | char
  | float
deriving DecidableEq

/-- The text of an argument of `op`. -/
def Argument.text (op : String) (heap : Heap) (image : Image) (v : Value) :
    Argument → Except Fault String
  | string => Strings.read heap image v
  | int => Strings.intText op v
  | char => Strings.charText op v
  | float => Strings.floatText op v

/-- The argument of a printing method, if it has one, and what it writes
behind the text. -/
def printMethod? (methodId : UInt16) : Option (Option Argument × String) :=
  match methodId.toNat with
  | 1 => some (some .string, "\n")
  | 2 => some (some .int, "\n")
  | 3 => some (some .char, "\n")
  | 4 => some (some .string, "")
  | 5 => some (some .int, "")
  | 6 => some (some .char, "")
  | 7 => some (none, "\n")
  | 8 => some (some .float, "\n")
  | 9 => some (some .float, "")
  | _ => none

/-- The text of the operand `depth` places below the top. -/
def operandText (op : String) (image : Image) (argument : Argument)
    (depth : Nat) : Action (Store δ) String :=
  Action.read fun s => do
    let v ← s.stack.peek depth
    argument.text op s.heap image v

/-- Runs a method of the output stream. -/
def printStream (image : Image) (r : MethodRef) : Action (Store δ) Unit := do
  match printMethod? r.methodId with
  | none => throw (.unknownNativeMethod r)
  | some (none, ending) =>
      let _ ← Store.pop
      Store.print ending
  | some (some argument, ending) =>
      let text ← operandText "print" image argument 0
      let _ ← Store.pop
      let _ ← Store.pop
      Store.print (text ++ ending)

/-! ## Input stream -/

/-- Takes the next byte of the input; `-1` behind the last one. -/
def readByte : Action (Store δ) Int32 :=
  modifyGet fun s =>
    match s.console.next? with
    | some b => (b.toUInt32.toInt32, { s with console := s.console.advance })
    | none => (-1, s)

/-- Number of bytes that can be read at once. -/
def available : Action (Store δ) Int32 := do
  let s ← get
  return Int32.ofNat s.console.available

/-- Replaces the receiver by the result of a method. -/
def answer (n : Int32) : Action (Store δ) Unit := do
  let _ ← Store.pop
  Store.push (.int n)

/-- Runs a method of the input stream. -/
def inputStream (r : MethodRef) : Action (Store δ) Unit := do
  match r.methodId.toNat with
  | 1 => answer (← available)
  | 2 => answer (← readByte)
  | _ => throw (.unknownNativeMethod r)

/-! ## String buffer -/

/-- The handle in the operand `depth` places below the top. -/
def operandHandle (op : String) (depth : Nat) : Action (Store δ) UInt16 := do
  let v ← Store.peek depth
  Action.lift (v.asHandle op)

/-- The text of a string buffer. -/
def bufferText (image : Image) (buffer : UInt16) :
    Action (Store δ) String :=
  Action.read fun s => do
    match ← s.heap.load buffer 0 with
    | .null | .zero => return ""
    | v => Strings.read s.heap image v

/-- Gives a string buffer a new array with a text. -/
def setText (buffer : UInt16) (text : String) : Action (Store δ) Unit := do
  let chars ← Store.onHeap (Strings.allocate text)
  Store.storeSlot buffer 0 (.ref chars)

/-- Empties the buffer on top. -/
def construct : Action (Store δ) Unit := do
  let buffer ← Store.popHandle "StringBuffer.<init>"
  Store.storeSlot buffer 0 .null

/-- Fills a buffer with the string on top of it. -/
def constructFrom (image : Image) : Action (Store δ) Unit := do
  let text ← operandText "string" image .string 0
  let buffer ← operandHandle "StringBuffer.<init>" 1
  setText buffer text
  let _ ← Store.onStack (Stack.popN 2)

/-- Appends the argument on top of a buffer and leaves the buffer. -/
def append (image : Image) (argument : Argument) : Action (Store δ) Unit := do
  let suffix ← operandText "append" image argument 0
  let buffer ← operandHandle "StringBuffer.append" 1
  let text ← bufferText image buffer
  setText buffer (text ++ suffix)
  let _ ← Store.pop

/-- Replaces a buffer by its array, a new one if it has none. -/
def toText : Action (Store δ) Unit := do
  let buffer ← operandHandle "StringBuffer.toString" 0
  let chars ←
    match ← Store.loadSlot buffer 0 with
    | .ref chars => pure chars
    | _ => Store.onHeap (Strings.allocate "")
  let _ ← Store.pop
  Store.push (.ref chars)

/-- Runs a method of a string buffer. -/
def stringBuffer (image : Image) (r : MethodRef) : Action (Store δ) Unit :=
  match r.methodId.toNat with
  | 0 => construct
  | 1 => constructFrom image
  | 2 => append image .string
  | 3 => append image .int
  | 4 => append image .char
  | 5 => toText
  | 6 => append image .float
  | _ => throw (.unknownNativeMethod r)

/-! ## The family -/

/-- The classes of the console family. -/
def family : Family δ where
  name := "stdio"
  handles classId :=
    classId == Native.printStream || classId == Native.inputStream
      || classId == Native.stringBuffer
  invoke image r :=
    if r.classId = Native.printStream then printStream image r
    else if r.classId = Native.inputStream then inputStream r
    else if r.classId = Native.stringBuffer then stringBuffer image r
    else throw (.unknownNativeClass r.classId)

end SlotVm.Stdio
