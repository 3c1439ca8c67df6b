import SlotVm.Config.Basic

/-!
# Program images

An image is a loaded program: its classes, the methods that they declare,
the constant pool, the code region and the entry point.  It does not change
while it runs.

A method's address may carry the storage flag, one bit which says that the
code lies in persistent storage.  The rest of the address is a position in
the code region.
-/

namespace SlotVm

/-! ## Addresses -/

/-- Where code is kept. -/
inductive Storage where
  | transient
  | persistent
deriving DecidableEq

/-- A position in the code region with the storage that holds it. -/
structure Address where
  storage : Storage
  offset : UInt32
deriving DecidableEq

namespace Address

/-- Splits the storage flag off an address.  Without a flag all code is
transient. -/
def decode (flag raw : UInt32) : Address :=
  if flag ≠ 0 ∧ raw &&& flag ≠ 0 then
    ⟨.persistent, raw &&& ~~~flag⟩
  else
    ⟨.transient, raw⟩

/-- The address with the storage flag in it. -/
def encode (flag : UInt32) (a : Address) : UInt32 :=
  match a.storage with
  | .persistent => a.offset ||| flag
  | .transient => a.offset

end Address

/-! ## Contents of an image -/

/-- A class of the program. -/
structure ClassDescriptor where
  id : UInt16
  /-- Parent class, which may be a native one. -/
  parent : Option UInt16
  /-- Number of instance slots, those of the ancestors included. -/
  fields : UInt16
deriving DecidableEq

/-- Implementation of a method. -/
inductive MethodBody where
  /-- Code at an address of the code region. -/
  | bytecode (address len : UInt32)
  /-- A native family implements the method. -/
  | native
deriving DecidableEq

/-- A method of a class of the program. -/
structure MethodDescriptor where
  classId : UInt16
  methodId : UInt16
  /-- Argument slots, the receiver included. -/
  args : UInt8
  maxLocals : UInt8
  /-- Operand stack slots that the method says it needs. -/
  maxStack : UInt8
  body : MethodBody
deriving DecidableEq

namespace MethodDescriptor

/-- The reference that names the method. -/
def ref (m : MethodDescriptor) : MethodRef := ⟨m.classId, m.methodId⟩

/-- Number of locals of a call. -/
def frameLocals (m : MethodDescriptor) : Nat :=
  max m.maxLocals.toNat m.args.toNat

/-- A native family implements the method. -/
def isNative (m : MethodDescriptor) : Bool :=
  match m.body with
  | .native => true
  | .bytecode .. => false

end MethodDescriptor

/-- Entry of the constant pool. -/
inductive Constant where
  | int (n : Int32)
  | float (x : Float32)
  | str (text : String)

/-- A loaded program. -/
structure Image where
  classes : List ClassDescriptor
  methods : Array MethodDescriptor
  constants : Array Constant
  /-- Code region. -/
  code : Array UInt8
  /-- Number of static fields. -/
  staticFields : UInt16
  /-- Entry point. -/
  main : MethodRef

namespace Image

/-! ## Lookups -/

/-- The class with an id. -/
def class? (image : Image) (id : UInt16) : Option ClassDescriptor :=
  image.classes.find? (·.id == id)

/-- The class with an id, which the program refers to. -/
def classOf (image : Image) (id : UInt16) : Except Fault ClassDescriptor :=
  match image.class? id with
  | some c => .ok c
  | none => .error (.unknownClass id)

/-- The declared parent of a class. -/
def parent? (image : Image) (id : UInt16) : Option UInt16 :=
  image.class? id >>= (·.parent)

/-- The method with an index. -/
def method (image : Image) (index : Nat) : Except Fault MethodDescriptor :=
  match image.methods[index]? with
  | some m => .ok m
  | none => .error (.invalidImage (.methodIndex index))

/-- Index of the method that a class declares itself. -/
def findMethod? (image : Image) (r : MethodRef) : Option Nat :=
  image.methods.findIdx? (·.ref == r)

/-- Entry of the constant pool. -/
def constant (image : Image) (index : Nat) : Except Fault Constant :=
  match image.constants[index]? with
  | some c => .ok c
  | none => .error (.invalidConstant index)

/-- String in the constant pool. -/
def string (image : Image) (index : Nat) : Except Fault String :=
  match image.constants[index]? with
  | some (.str text) => .ok text
  | _ => .error (.invalidConstant index)

/-- What is wrong with the place of a method's code, or the code. -/
def codeOf (image : Image) (flag : UInt32) (m : MethodDescriptor) :
    Except ImageDefect (Array UInt8) :=
  match m.body with
  | .native => .error (.noBytecode m.ref)
  | .bytecode address len =>
      let start := (Address.decode flag address).offset.toNat
      let stop := start + len.toNat
      if stop ≤ image.code.size then
        .ok (image.code.extract start stop)
      else
        .error (.codeOutside m.ref start stop image.code.size)

/-- The code of a method. -/
def methodCode (image : Image) (flag : UInt32) (m : MethodDescriptor) :
    Except Fault (Array UInt8) :=
  match image.codeOf flag m with
  | .ok code => .ok code
  | .error d => .error (.invalidImage d)

end Image

end SlotVm
