/-!
# The console

A console has input that is read byte by byte and output that is written
text by text.  Input from a stream arrives in blocks, and what is available
is the rest of the current block; input that is at hand as a whole is a
single block.
-/

namespace SlotVm

/-- Input and output of a program. -/
structure Console where
  /-- The whole input. -/
  input : Array UInt8
  /-- Number of bytes that have been read. -/
  position : Nat
  /-- Bytes of a block of a stream; none if all input is at hand. -/
  blockSize : Option Nat
  /-- All output so far. -/
  output : String

namespace Console

/-- A console with all input at hand. -/
def ofBytes (input : Array UInt8) : Console := ⟨input, 0, none, ""⟩

/-- A console whose input arrives in blocks. -/
def ofBlocks (blockSize : Nat) (input : Array UInt8) : Console :=
  ⟨input, 0, some blockSize, ""⟩

/-- Bytes that have not been read. -/
def rest (c : Console) : Nat := c.input.size - c.position

/-- Bytes that can be read before the end of the block. -/
def available (c : Console) : Nat :=
  match c.blockSize with
  | some size => min (size - c.position % size) c.rest
  | none => c.rest

/-- The next byte of the input. -/
def next? (c : Console) : Option UInt8 := c.input[c.position]?

/-- The console without the next byte of its input. -/
def advance (c : Console) : Console :=
  { c with position := min (c.position + 1) c.input.size }

/-- Writes a text. -/
def write (text : String) (c : Console) : Console :=
  { c with output := c.output ++ text }

end Console

end SlotVm
