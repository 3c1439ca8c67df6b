import SlotVm.Code.Decode

/-!
# Listings of code

A listing has one line per instruction, from the start of the code to its
end, with the position in front.  It names the method of an invoke
instruction and marks native ones.
-/

namespace SlotVm.Code

/-- A position, right-aligned in five columns. -/
def positionText (pc : Nat) : String :=
  let digits := toString pc
  String.ofList (List.replicate (5 - digits.length) ' ') ++ digits

/-- An instruction without its position. -/
def operationText (native : NativeRange) : Operation → String
  | .index (.invoke kind) raw =>
      let method := native.layout.unpack raw
      let mark := if native.Contains method.classId then " (native)" else ""
      (Opcode.index (.invoke kind)).mnemonic ++ s!" {method}" ++ mark
  | o => o.text

/-- The line of an instruction. -/
def line (native : NativeRange) (i : Instruction) : String :=
  positionText i.pc ++ ": " ++ operationText native i.operation

/-- The instructions from a position to the end of the code. -/
def sweepFrom (code : Array UInt8) (pc : Nat) :
    Except Fault (List Instruction) :=
  if pc < code.size then
    match Instruction.decode code pc with
    | .error e => .error e
    | .ok i => do
        let rest ← sweepFrom code (pc + i.len)
        return i :: rest
  else
    .ok []
termination_by code.size - pc
decreasing_by simp only [Instruction.len]; omega

/-- The lines of a method's code. -/
def listing (code : Array UInt8) (native : NativeRange) :
    Except Fault (List String) := do
  let instructions ← sweepFrom code 0
  return instructions.map (line native)

end SlotVm.Code
