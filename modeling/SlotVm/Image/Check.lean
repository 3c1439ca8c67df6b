import SlotVm.Image.Basic

/-!
# Checking an image

`Image.check` refuses an image that does not fit the configuration it shall
run under.  It looks at the size of the code, at the classes, at the methods
and at the entry point, in this order, and names the first defect.
-/

namespace SlotVm.Image

/-- Whether a walk up from `current` comes to an end. -/
def ends (image : Image) : Nat → Option UInt16 → Bool
  | 0, _ => false
  | _ + 1, none => true
  | fuel + 1, some id => image.ends fuel (image.parent? id)

/-- The class has finitely many ancestors.  A legal chain has every class of
the image, a native class and the end. -/
def reachesRoot (image : Image) (classId : UInt16) : Bool :=
  image.ends (image.classes.length + 2) (some classId)

/-- The parent of a class is a native class or one of the image. -/
def parentDefect? (image : Image) (native : NativeRange)
    (c : ClassDescriptor) : Option ImageDefect :=
  match c.parent with
  | none => none
  | some parent =>
      if native.Contains parent ∨ (image.class? parent).isSome then none
      else some (.unknownParent c.id parent)

/-- The first defect of a class that follows the classes `earlier`. -/
def classDefect? (image : Image) (native : NativeRange)
    (earlier : List ClassDescriptor) (c : ClassDescriptor) :
    Option ImageDefect :=
  if native.Contains c.id then
    some (.classInNativeRange c.id native.classBase)
  else if earlier.any (·.id == c.id) then
    some (.duplicateClass c.id)
  else
    (image.parentDefect? native c).or
      (if image.reachesRoot c.id then none else some (.cyclicParents c.id))

/-- The code of a method lies in the code region. -/
def bodyDefect? (image : Image) (flag : UInt32) (m : MethodDescriptor) :
    Option ImageDefect :=
  match m.body, image.codeOf flag m with
  | .bytecode .., .error d => some d
  | _, _ => none

/-- The first defect of a method that follows the methods `earlier`. -/
def methodDefect? (image : Image) (config : Config)
    (earlier : List MethodDescriptor) (m : MethodDescriptor) :
    Option ImageDefect :=
  let layout := config.native.layout
  if ¬ layout.Fits m.ref then
    some (.unencodableRef m.ref layout.methodBits)
  else if (image.class? m.classId).isNone then
    some (.orphanMethod m.ref)
  else if earlier.any (·.ref == m.ref) then
    some (.duplicateMethod m.ref)
  else
    image.bodyDefect? config.storageFlag m

/-- The entry point is a method with code. -/
def entryDefect? (image : Image) : Option ImageDefect :=
  match image.methods.find? (·.ref == image.main) with
  | none => some (.missingEntry image.main)
  | some m => if m.isNative then some (.nativeEntry image.main) else none

/-- The first entry of a list that has a defect, given the entries in front
of it. -/
def firstDefect? {α : Type} (defect? : List α → α → Option ImageDefect)
    (entries : List α) : Option ImageDefect :=
  entries.zipIdx.findSome? fun (entry, i) => defect? (entries.take i) entry

/-- The first defect of an image. -/
def defect? (image : Image) (config : Config) : Option ImageDefect :=
  if config.codeSize < image.code.size then
    some (.codeTooLong image.code.size config.codeSize)
  else
    ((firstDefect? (image.classDefect? config.native) image.classes).or
      (firstDefect? (image.methodDefect? config) image.methods.toList)).or
      image.entryDefect?

/-- Refuses an image that does not fit the configuration. -/
def check (image : Image) (config : Config) : Except Fault Unit :=
  match image.defect? config with
  | some d => .error (.invalidImage d)
  | none => .ok ()

end SlotVm.Image
