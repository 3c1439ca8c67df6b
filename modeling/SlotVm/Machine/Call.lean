import SlotVm.Image.Resolve
import SlotVm.Machine.State

/-!
# Calls and returns

A call of a method with code takes the arguments off the operand stack and
begins a frame whose base is what is left.  A native method runs to its end
without a frame.

A return ends the current frame.  Values that it leaves above its base are
treated as the configuration says; the returned value is pushed for the
caller afterwards.
-/

namespace SlotVm

/-- What a step leads to. -/
inductive Flow where
  /-- There are more instructions. -/
  | running
  /-- The first call returned, with a value if it has one. -/
  | finished (value : Option Value)

namespace Machine

variable {δ : Type}

/-! ## Calls -/

/-- Begins a frame if the call depth allows it. -/
def enter (f : Frame) : Action (Machine δ) Unit := fun m =>
  let limit := m.program.config.maxCallDepth
  if m.frames.length < limit then
    .ok ()
      { m with
        frames := f :: m.frames
        store := { m.store with stack := m.store.stack.setFloor f.base } }
  else
    .error (.callDepthExceeded limit) m

/-- Runs a native method. -/
def callNative (r : MethodRef) : Action (Machine δ) Unit := do
  let m ← get
  onStore (m.bridge.invoke m.program.image r)

/-- Reports a call if the machine traces. -/
def traceCall (r : MethodRef) : Action (Machine δ) Unit := do
  let p ← getProgram
  if p.config.trace then
    let m ← get
    record .debug target fun _ => s!"call {r} (depth {m.depth + 1})"

/-- Calls the method that a lookup has found. -/
def call (found : Resolved) : Action (Machine δ) Unit := do
  match found with
  | .native r => callNative r
  | .method index =>
      let p ← getProgram
      let method ← Action.lift (p.image.method index)
      if method.isNative then
        callNative method.ref
      else
        let args ← onStore (Store.onStack (Stack.popN method.args.toNat))
        traceCall method.ref
        let m ← get
        enter (.enter index method.frameLocals args m.store.stack.size)

/-- Class of the object that a receiver refers to, if it is an instance. -/
def receiverClass? : Value → Action (Store δ) (Option UInt16)
  | .null | .zero => throw (.nullReference "invokevirtual")
  | .ref handle => do
      let entry ← Store.readHeap (·.header handle)
      return entry.kind.classId?
  | _ => return none

/-- The method that a virtual call runs.  `found` is what the named class
has; an instance of a derived class may have a nearer one. -/
def dispatch (p : Program) (r : MethodRef) (found : Resolved) :
    Action (Store δ) Resolved := do
  let .method index := found | return found
  let method ← Action.lift (p.image.method index)
  let args := method.args.toNat
  if args = 0 then
    return found
  let receiver ← Store.peek (args - 1)
  match ← receiverClass? receiver with
  | none => return found
  | some classId =>
      if classId = r.classId then
        return found
      else if p.image.isSubclass classId r.classId then
        Action.lift
          (p.image.resolve p.config.native ⟨classId, r.methodId⟩ true)
      else
        throw (.typeMismatch "invokevirtual"
          "instance of the method's class" "unrelated object")

/-- Runs an invoke instruction. -/
def invoke (kind : InvokeKind) (raw : UInt16) : Action (Machine δ) Unit := do
  let p ← getProgram
  let r := p.config.native.layout.unpack raw
  if p.config.native.Contains r.classId then
    callNative r
  else
    let inherit := p.config.features.inheritance
    let found ← Action.lift (p.image.resolve p.config.native r inherit)
    if kind = .virtual ∧ inherit then
      let nearest ← onStore (dispatch p r found)
      call nearest
    else
      call found

/-! ## Returns -/

/-- Treats the values that a method leaves above its base. -/
def settle (f : Frame) : Action (Machine δ) Unit := fun m =>
  let stack := m.store.stack
  if stack.size < f.base then
    .error .stackUnderflow m
  else
    let residual := stack.size - f.base
    if residual = 0 then
      .ok () m
    else
      match m.program.config.residue with
      | .verify =>
          match m.program.image.method f.method with
          | .ok method => .error (.stackImbalance method.ref residual) m
          | .error e => .error e m
      | .discard =>
          .ok ()
            { m with store := { m.store with stack := stack.truncate f.base } }
      | .retain => .ok () m

/-- Ends the current frame and gives the stack back to its caller. -/
def leave : Action (Machine δ) Unit :=
  modify fun m =>
    let callers := m.frames.tail
    let floor := match callers with
      | caller :: _ => caller.base
      | [] => 0
    { m with
      frames := callers
      store := { m.store with stack := m.store.stack.setFloor floor } }

/-- Returns from the current method. -/
def returnFrom (value : Option Value) : Action (Machine δ) Flow := do
  let f ← Action.read frame
  settle f
  leave
  let m ← get
  if m.frames.isEmpty then
    return .finished value
  match value with
  | some v => onStore (Store.push v)
  | none => pure ()
  return .running

end Machine

end SlotVm
