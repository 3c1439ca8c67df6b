/-!
# Method references

A method is named by a class id and a method id.  Both are 16-bit numbers;
how the two share one 16-bit operand is the business of
`SlotVm.RefLayout`.
-/

namespace SlotVm

/-- A class id with the id of a method of that class. -/
structure MethodRef where
  classId : UInt16
  methodId : UInt16
deriving DecidableEq, Inhabited

/-- A reference is written `class.method`. -/
instance : ToString MethodRef where
  toString r := s!"{r.classId}.{r.methodId}"

end SlotVm
