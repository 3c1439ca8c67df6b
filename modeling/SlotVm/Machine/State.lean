import SlotVm.Code.Decode
import SlotVm.Image.Check
import SlotVm.Machine.Frame
import SlotVm.Native.Bridge

/-!
# The machine

A machine runs one program.  It owns the store and the active calls, and it
reaches native methods through its bridge.  Every bound comes from the
configuration of the program.

`Machine.create` checks the configuration and the image and allocates the
static fields, which are the first object of the heap.
-/

namespace SlotVm

/-- An image with the configuration that it runs under.  The code of the
methods is cut out of the code region once. -/
structure Program where
  config : Config
  image : Image
  /-- The code of each method, or why it has none. -/
  bodies : Array (Except Fault (Array UInt8))
  bodies_eq : bodies = image.methods.map (image.methodCode config.storageFlag)

namespace Program

/-- The program of an image. -/
def load (config : Config) (image : Image) : Program :=
  ⟨config, image, image.methods.map (image.methodCode config.storageFlag), rfl⟩

/-- The code of the method with an index. -/
def codeOf (p : Program) (index : Nat) : Except Fault (Array UInt8) :=
  match p.bodies[index]? with
  | some body => body
  | none => .error (.invalidImage (.methodIndex index))

end Program

/-- A machine with its program and all of its state. -/
structure Machine (δ : Type) where
  program : Program
  bridge : Bridge δ
  store : Store δ
  /-- Active calls, the current one first. -/
  frames : List Frame
  /-- Handle of the static fields. -/
  statics : UInt16
  /-- Instructions executed so far. -/
  steps : Nat

namespace Machine

variable {δ α : Type}

/-- The part of the machine that reports runs and calls. -/
def target : String := "interpreter::vm"

/-- Number of active calls. -/
def depth (m : Machine δ) : Nat := m.frames.length

/-- The current call. -/
def frame (m : Machine δ) : Except Fault Frame :=
  match m.frames with
  | f :: _ => .ok f
  | [] => .error (.invalidImage .noActiveFrame)

/-- The value of a static field. -/
def staticField (m : Machine δ) (index : Nat) : Except Fault Value :=
  m.store.heap.load m.statics index

/-! ## Actions -/

/-- An action on the store. -/
def onStore (a : Action (Store δ) α) : Action (Machine δ) α := fun m =>
  let store := m.store
  let m := { m with
    store := ⟨.empty 0, .empty 0 1, .ofBytes #[], .empty .off, store.devices⟩ }
  match a store with
  | .ok x store => .ok x { m with store }
  | .error e store => .error e { m with store }

/-- The program. -/
def getProgram : Action (Machine δ) Program := fun m => .ok m.program m

/-- Changes the current call. -/
def updateFrame (f : Frame → Except Fault Frame) : Action (Machine δ) Unit :=
  fun m =>
    match m.frames with
    | [] => .error (.invalidImage .noActiveFrame) m
    | current :: callers =>
        match f current with
        | .ok next => .ok () { m with frames := next :: callers }
        | .error e => .error e m

/-- Records a log message. -/
def record (level : Level) (target : String) (text : Unit → String) :
    Action (Machine δ) Unit :=
  onStore (Store.record level target text)

/-! ## Creation -/

/-- A machine with the given bridge. -/
def createWith (bridge : Bridge δ) (config : Config) (image : Image)
    (console : Console) (devices : δ) : Action Log (Machine δ) := do
  Action.lift config.check
  Action.lift (image.check config)
  let space := Heap.empty config.heapSize config.word.bytes
  match Heap.allocate true image.staticFields.toNat space with
  | .error e _ => throw e
  | .ok statics heap =>
      modify fun log => log.record .debug target fun _ =>
        s!"heap of {heap.capacity} slots, {heap.used} used by statics"
      let log ← get
      return {
        program := .load config image
        bridge
        store :=
          { stack := .empty config.stackSize, heap, console, log, devices }
        frames := []
        statics
        steps := 0 }

/-- A machine with the native families of its profile. -/
def create (config : Config) (image : Image) (console : Console)
    (devices : δ) : Action Log (Machine δ) := do
  let bridge ← Bridge.forConfig config
  createWith bridge config image console devices

end Machine

end SlotVm
