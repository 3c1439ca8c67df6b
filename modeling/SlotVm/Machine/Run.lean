import SlotVm.Code.Listing
import SlotVm.Machine.Execute

/-!
# Running

`Machine.step` fetches and runs one instruction.  A run starts from an empty
operand stack but keeps the heap, and goes on until the first call returns
or a fault stops it; a fault leaves the machine as it was then.

A program need not come to an end, so a run is given a number of
instructions, and says if it has used them up.
-/

namespace SlotVm

/-- How a run ends that no fault stops. -/
inductive Outcome where
  /-- The first call returned, with a value if it has one. -/
  | finished (value : Option Value)
  /-- The instructions given to the run are used up. -/
  | unfinished

namespace Machine

variable {δ : Type}

/-- The part of the machine that reports instructions. -/
def stepTarget : String := "interpreter::dispatch"

/-- The next instruction, if the profile has what it needs. -/
def fetch (m : Machine δ) : Except Fault Instruction := do
  let f ← m.frame
  let code ← m.program.codeOf f.method
  let i ← Instruction.decode code f.pc
  let op := i.operation.opcode
  match op.feature? with
  | none => return i
  | some feature =>
      if feature.isEnabled m.program.config.features then
        return i
      else
        throw (.unsupportedOpcode op.byte feature.name)

/-- The reference of the current method. -/
def currentMethod (m : Machine δ) : Except Fault MethodRef := do
  let f ← m.frame
  let method ← m.program.image.method f.method
  return method.ref

/-- A text filled up with blanks behind it. -/
def padded (width : Nat) (text : String) : String :=
  text ++ Level.fill width text

/-- Reports an instruction if the machine traces. -/
def traceStep (i : Instruction) : Action (Machine δ) Unit := do
  let p ← getProgram
  if p.config.trace then
    let r ← Action.read currentMethod
    let m ← get
    record .debug stepTarget fun _ =>
      s!"{r} " ++ Code.positionText i.pc ++ ": "
        ++ padded 24 i.operation.text ++ s!" depth={m.store.stack.size}"

/-- Counts an instruction and puts the position of the current call behind
it. -/
def advance (i : Instruction) : Action (Machine δ) Unit := do
  modify fun m => { m with steps := m.steps + 1 }
  jump i.next

/-- Runs one instruction. -/
def step : Action (Machine δ) Flow := do
  let i ← Action.read fetch
  traceStep i
  advance i
  execute i.operation

/-- Runs instructions until the first call returns. -/
def runSteps : Nat → Action (Machine δ) Outcome
  | 0 => return .unfinished
  | fuel + 1 => do
      match ← step with
      | .running => runSteps fuel
      | .finished value => return .finished value

/-- Index of the method that a run starts with. -/
def entryIndex (p : Program) (entry : MethodRef) : Except Fault Nat := do
  let withoutCode : Fault := .invalidImage (.entryWithoutCode entry)
  let found ← p.image.resolve p.config.native entry false
  match found with
  | .native _ => throw withoutCode
  | .method index =>
      let method ← p.image.method index
      if method.isNative then throw withoutCode
      return index

/-- Begins the first call, on an empty operand stack. -/
def start (entry : MethodRef) : Action (Machine δ) Unit := do
  let p ← getProgram
  let index ← Action.lift (entryIndex p entry)
  let method ← Action.lift (p.image.method index)
  record .info target fun _ => s!"running {entry}"
  modify fun m =>
    { m with
      frames := []
      store := { m.store with stack := m.store.stack.truncate 0 } }
  enter (.enter index method.frameLocals #[] 0)

/-- Reports how a run ended. -/
def reportEnd (entry : MethodRef) : Action (Machine δ) Unit := do
  let m ← get
  record .info target fun _ =>
    s!"{entry} finished after {m.steps} instructions"

/-- Reports the fault that stopped a run. -/
def reportFault (e : Fault) (m : Machine δ) : Machine δ :=
  let log := m.store.log.record .debug target fun _ =>
    s!"fault at depth {m.depth}: " ++ e.message
  { m with store := { m.store with log } }

/-- Goes on until the first call returns, and reports the end. -/
def finish (fuel : Nat) (entry : MethodRef) : Action (Machine δ) Outcome :=
  fun m =>
    match runSteps fuel m with
    | .ok (.finished value) m =>
        (do reportEnd entry; return .finished value : Action _ _) m
    | .ok .unfinished m => .ok .unfinished m
    | .error e m => .error e (reportFault e m)

/-- Runs a method for at most `fuel` instructions. -/
def run (fuel : Nat) (entry : MethodRef) : Action (Machine δ) Outcome := do
  start entry
  finish fuel entry

/-- Runs the entry point of the image. -/
def runMain (fuel : Nat) : Action (Machine δ) Outcome := do
  let p ← getProgram
  run fuel p.image.main

end Machine

end SlotVm
