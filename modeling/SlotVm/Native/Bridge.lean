import SlotVm.Native.Stdio
import SlotVm.Text.Quoted

/-!
# The native bridge

The bridge keeps the native families in a chain.  The chain is ordered by
kind, and families of one kind stand in the order of their registration; the
first one that handles a class runs its methods.

A bridge for a configuration admits only the kinds of its profile.
-/

namespace SlotVm

/-- The registered families. -/
structure Bridge (δ : Type) where
  /-- Families of the profile; without a profile every kind is admitted. -/
  enabled : Option FamilySet
  /-- Families with their kinds, in the order in which they are asked. -/
  chain : List (FamilyKind × Family δ)

namespace Bridge

variable {δ : Type}

/-- The part of the machine that reports here. -/
def target : String := "natives::bridge"

/-- A bridge without families that admits every kind. -/
def empty : Bridge δ := ⟨none, []⟩

/-- The bridge admits families of the kind. -/
def admits (b : Bridge δ) (kind : FamilyKind) : Bool :=
  match b.enabled with
  | some families => kind.isEnabled families
  | none => true

/-- The chain with a family behind all others of its kind. -/
def insert (kind : FamilyKind) (family : Family δ) :
    List (FamilyKind × Family δ) → List (FamilyKind × Family δ)
  | [] => [(kind, family)]
  | entry :: rest =>
      if kind.rank < entry.1.rank then (kind, family) :: entry :: rest
      else entry :: insert kind family rest

/-- Adds a family of an admitted kind. -/
def register (b : Bridge δ) (kind : FamilyKind) (family : Family δ) :
    Action Log (Bridge δ) := do
  if b.admits kind then
    modify fun log => log.record .debug target fun _ =>
      s!"registered native family {family.name} as {kind.name}"
    return { b with chain := insert kind family b.chain }
  else
    throw (.invalidConfig (.familyDisabled kind.name))

/-- Admitted kinds of a profile that have no family. -/
def unserved (b : Bridge δ) : List FamilyKind :=
  match b.enabled with
  | some families =>
      FamilyKind.all.filter fun kind =>
        kind.isEnabled families && b.chain.all (·.1 != kind)
  | none => []

/-- Names of the families in the order in which they are asked. -/
def familyNames (b : Bridge δ) : List String := b.chain.map (·.2.name)

/-- Some family handles the class. -/
def handles (b : Bridge δ) (classId : UInt16) : Bool :=
  b.chain.any (·.2.handles classId)

/-- The family that runs the methods of a class. -/
def familyOf? (b : Bridge δ) (classId : UInt16) : Option (Family δ) :=
  (b.chain.find? (·.2.handles classId)).map (·.2)

/-- The bridge of a configuration, with the root class and, if the profile
has it, the console. -/
def forConfig (config : Config) : Action Log (Bridge δ) := do
  if config.native.classBase ≠ Native.classBase then
    throw (.invalidConfig
      (.classBaseMoved Native.classBase config.native.classBase))
  let bare : Bridge δ := ⟨some config.families, []⟩
  let rooted ← bare.register .object Family.root
  let bridge ←
    if config.families.stdio then rooted.register .console Stdio.family
    else pure rooted
  for kind in bridge.unserved do
    modify fun log => log.record .warn target fun _ =>
      s!"{kind.name} natives enabled but no handler registered"
  return bridge

/-- Runs a native method. -/
def invoke (b : Bridge δ) (image : Image) (r : MethodRef) :
    Action (Store δ) Unit := do
  let className := (Native.className? r.classId).getD "unnamed class"
  match b.familyOf? r.classId with
  | some family =>
      Store.record .debug target fun _ =>
        s!"native {r} ({className}) -> {family.name}"
      family.invoke image r
  | none =>
      Store.record .warn target fun _ =>
        s!"no native family handles {r.classId} ({className})"
      throw (.unknownNativeClass r.classId)

/-- Makes an instance of a native class.  Only string buffers have
instances. -/
def construct (classId : UInt16) : Action (Store δ) Unit := do
  if classId ≠ Native.stringBuffer then
    throw (.unknownNativeClass classId)
  let buffer ← Store.onHeap (Heap.allocate false 1)
  Store.push (.ref buffer)

/-- The bridge in diagnostics. -/
def text (b : Bridge δ) : String :=
  let names := b.familyNames.map Text.quoted
  "NativeBridge \x7b families: [" ++ ", ".intercalate names ++ "] \x7d"

end Bridge

end SlotVm
