import SlotVm.Image.Basic

/-!
# Method lookup

`Image.resolve` looks for a method on a class and, with inheritance, on its
ancestors in turn.  A native class ends the search: its method is left to
the native families.  A walk visits at most one class more than the image
has, which is enough for all its classes and a native one at the end.
-/

namespace SlotVm

/-- The method that a reference leads to. -/
inductive Resolved where
  /-- Index of a method of the image. -/
  | method (index : Nat)
  /-- Method of a native class. -/
  | native (r : MethodRef)
deriving DecidableEq

namespace Image

/-- The lookup of `r` once it has come to class `current`. -/
def resolveFrom (image : Image) (native : NativeRange) (r : MethodRef)
    (inherit : Bool) : Nat → UInt16 → Except Fault Resolved
  | 0, _ => .error (.invalidImage (.cyclicParents r.classId))
  | fuel + 1, current =>
      if native.Contains current then
        .ok (.native ⟨current, r.methodId⟩)
      else
        match image.findMethod? ⟨current, r.methodId⟩ with
        | some index => .ok (.method index)
        | none =>
            if inherit then
              match image.class? current with
              | none => .error (.unknownClass current)
              | some c =>
                  match c.parent with
                  | some parent =>
                      image.resolveFrom native r inherit fuel parent
                  | none => .error (.unresolvedMethod r)
            else
              .error (.unresolvedMethod r)

/-- The method that `r` names, on its class or, with `inherit`, on the
nearest ancestor that declares it. -/
def resolve (image : Image) (native : NativeRange) (r : MethodRef)
    (inherit : Bool) : Except Fault Resolved :=
  image.resolveFrom native r inherit (image.classes.length + 1) r.classId

/-- Whether a walk up from `current` meets `ancestor`. -/
def meets (image : Image) (ancestor : UInt16) : Nat → UInt16 → Bool
  | 0, _ => false
  | fuel + 1, current =>
      current == ancestor ||
        match image.parent? current with
        | some parent => image.meets ancestor fuel parent
        | none => false

/-- The class is `ancestor` or derives from it. -/
def isSubclass (image : Image) (classId ancestor : UInt16) : Bool :=
  image.meets ancestor (image.classes.length + 1) classId

end Image

end SlotVm
