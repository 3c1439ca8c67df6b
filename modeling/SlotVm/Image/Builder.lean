import SlotVm.Code.Alignment
import SlotVm.Code.Opcode
import SlotVm.Image.Basic

/-!
# Building images

An `ImageBuilder` puts an image together.  The padding of a switch counts
from the start of its method, so the code of every method starts at a
multiple of four.
-/

namespace SlotVm

/-- An image under construction, with the storage of the methods to come. -/
structure ImageBuilder where
  image : Image
  storage : Storage
  /-- Address bit of persistent storage. -/
  flag : UInt32

namespace ImageBuilder

/-- An empty image.  Its entry point is method 0 of class 0 until it is
set. -/
def empty : ImageBuilder where
  image :=
    { classes := []
      methods := #[]
      constants := #[]
      code := #[]
      staticFields := 0
      main := ⟨0, 0⟩ }
  storage := .transient
  flag := 0

/-- Keeps the code of all further methods in persistent storage. -/
def persistent (b : ImageBuilder) (flag : UInt32) : ImageBuilder :=
  { b with storage := .persistent, flag }

/-- Declares a class. -/
def addClass (b : ImageBuilder) (c : ClassDescriptor) : ImageBuilder :=
  { b with image := { b.image with classes := b.image.classes ++ [c] } }

/-- The code region filled up to a multiple of four. -/
def alignedCode (b : ImageBuilder) : Array UInt8 :=
  let gap := padding (Opcode.plain .nop).byte b.image.code.size
  b.image.code ++ gap.toArray

/-- Adds a method with code. -/
def addMethod (b : ImageBuilder) (r : MethodRef) (args maxLocals : UInt8)
    (code : Array UInt8) : ImageBuilder :=
  let region := b.alignedCode
  let address : Address := ⟨b.storage, UInt32.ofNat region.size⟩
  let method : MethodDescriptor :=
    { classId := r.classId
      methodId := r.methodId
      args
      maxLocals
      maxStack := 0
      body := .bytecode (address.encode b.flag) (UInt32.ofNat code.size) }
  { b with
    image :=
      { b.image with
        code := region ++ code
        methods := b.image.methods.push method } }

/-- Adds a method that a native family implements. -/
def addNative (b : ImageBuilder) (r : MethodRef) (args : UInt8) :
    ImageBuilder :=
  let method : MethodDescriptor :=
    { classId := r.classId
      methodId := r.methodId
      args
      maxLocals := 0
      maxStack := 0
      body := .native }
  { b with image := { b.image with methods := b.image.methods.push method } }

/-- Adds a constant and gives its index, of which a load instruction has
room for eight bits. -/
def addConstant (b : ImageBuilder) (c : Constant) : UInt8 × ImageBuilder :=
  (UInt8.ofNat b.image.constants.size,
    { b with
      image := { b.image with constants := b.image.constants.push c } })

/-- Sets the number of static fields. -/
def setStaticFields (b : ImageBuilder) (count : UInt16) : ImageBuilder :=
  { b with image := { b.image with staticFields := count } }

/-- Sets the entry point. -/
def setMain (b : ImageBuilder) (r : MethodRef) : ImageBuilder :=
  { b with image := { b.image with main := r } }

end ImageBuilder

end SlotVm
