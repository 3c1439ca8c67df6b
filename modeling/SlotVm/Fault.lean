import SlotVm.MethodRef

/-!
# Faults

Every fault stops the machine where it is found.  A `Fault` is the cause
with the numbers that describe it; the wording, the diagnostic code and the
broad class are functions of the cause.

Two causes have many forms and get a type of their own: `ImageDefect`, what
can be wrong with a program image or a method's code, and `ConfigDefect`,
what can be wrong with a configuration.
-/

namespace SlotVm

/-! ## Defects of images and configurations -/

/-- What is wrong with a program image. -/
inductive ImageDefect where
  /-- The text is not the JSON form of an image. -/
  | malformedText
  /-- A position lies at or behind the end of a method's code. -/
  | pcOutside (pc : Nat)
  | truncatedInstruction (pc : Nat)
  /-- A branch of the instruction at `pc` leaves the method. -/
  | branchOutside (pc : Nat) (target : Int)
  | tableBoundsReversed (pc : Nat) (high low : Int32)
  | pairCount (pc : Nat) (count : Int32)
  | arrayType (code : UInt8)
  /-- A reference is too wide for a layout with `methodBits` method bits. -/
  | unencodableRef (method : MethodRef) (methodBits : UInt8)
  | unboundLabel (label : Nat)
  | branchTooFar (offset : Int)
  | codeTooLong (size limit : Nat)
  | classInNativeRange (classId base : UInt16)
  | duplicateClass (classId : UInt16)
  | unknownParent (classId parent : UInt16)
  | cyclicParents (classId : UInt16)
  | orphanMethod (method : MethodRef)
  | duplicateMethod (method : MethodRef)
  /-- A method's code `start..stop` is not inside the code region. -/
  | codeOutside (method : MethodRef) (start stop size : Nat)
  | noBytecode (method : MethodRef)
  | methodIndex (index : Nat)
  | nativeEntry (entry : MethodRef)
  | missingEntry (entry : MethodRef)
  | entryWithoutCode (entry : MethodRef)
  | noActiveFrame
  /-- A defect found by the embedding, in its own words. -/
  | stated (text : String)
deriving DecidableEq

/-- What is wrong with a configuration. -/
inductive ConfigDefect where
  /-- The text is not the JSON form of a configuration. -/
  | malformedText
  | emptySizes
  /-- The call depth is zero or above `limit`. -/
  | callDepth (limit : Nat)
  | floatNeedsWord32
  /-- The storage flag is not one bit of the word. -/
  | storageFlag (flag : UInt32)
  | methodBits
  | classBaseTooWide (base : UInt16)
  /-- The native families start at `expected`. -/
  | classBaseMoved (expected found : UInt16)
  /-- A family of a kind that the profile leaves out. -/
  | familyDisabled (kind : String)
  /-- A defect found by the embedding, in its own words. -/
  | stated (text : String)
deriving DecidableEq

/-- Lower-case hexadecimal digits, without leading zeros. -/
def hexText (n : Nat) : String :=
  String.ofList (Nat.toDigits 16 n)

/-- The two lower-case hexadecimal digits of a byte. -/
def hexByte (b : UInt8) : String :=
  String.ofList
    [Nat.digitChar (b.toNat / 16), Nat.digitChar (b.toNat % 16)]

/-- The wording of a defect of an image. -/
def ImageDefect.message : ImageDefect → String
  | malformedText => "<json>"
  | pcOutside pc => s!"pc {pc} beyond end of method"
  | truncatedInstruction pc => s!"truncated instruction at pc {pc}"
  | branchOutside pc target =>
      s!"branch at pc {pc} targets {target} outside the method"
  | tableBoundsReversed pc high low =>
      s!"tableswitch at pc {pc} has high {high} below low {low}"
  | pairCount pc count =>
      s!"lookupswitch at pc {pc} has invalid pair count {count}"
  | arrayType code => s!"unsupported array type {code}"
  | unencodableRef method bits =>
      s!"method reference {method} does not fit a {bits}-bit method layout"
  | unboundLabel label => s!"unbound label {label}"
  | branchTooFar offset => s!"branch offset {offset} out of range"
  | codeTooLong size limit =>
      s!"code region of {size} bytes exceeds the {limit} byte limit"
  | classInNativeRange classId base =>
      s!"class {classId} lies in the native class range (>= {base})"
  | duplicateClass classId => s!"duplicate class {classId}"
  | unknownParent classId parent =>
      s!"class {classId} has unknown parent {parent}"
  | cyclicParents classId => s!"class {classId} has a cyclic parent chain"
  | orphanMethod method => s!"method {method} belongs to unknown class"
  | duplicateMethod method => s!"duplicate method {method}"
  | codeOutside method start stop size =>
      s!"method {method} code {start}..{stop} outside code region of " ++
        s!"{size} bytes"
  | noBytecode method => s!"method {method} has no bytecode"
  | methodIndex index => s!"method index {index} out of range"
  | nativeEntry entry => s!"entry point {entry} is native"
  | missingEntry entry => s!"entry point {entry} not found"
  | entryWithoutCode entry =>
      s!"entry point {entry} is not a bytecode method"
  | noActiveFrame => "no active frame"
  | stated text => text

/-- The wording of a defect of a configuration. -/
def ConfigDefect.message : ConfigDefect → String
  | malformedText => "<json>"
  | emptySizes => "code and stack sizes must be non-zero"
  | callDepth limit => s!"max_call_depth must be within 1..={limit}"
  | floatNeedsWord32 => "float support requires 32-bit words"
  | storageFlag flag =>
      let digits := hexText flag.toNat
      s!"nvmfile_flag 0x{digits} must be a single bit inside the word"
  | methodBits => "native.method_bits must be within 1..=15"
  | classBaseTooWide base =>
      s!"native.class_base {base} does not fit the method reference layout"
  | classBaseMoved expected found =>
      s!"native families use class base {expected}, " ++
        s!"configuration has {found}"
  | familyDisabled kind =>
      s!"{kind} natives are not enabled in this configuration"
  | stated text => text

/-! ## Faults -/

/-- Broad class of a fault. -/
inductive FaultClass where
  /-- A class or method id could not be resolved. -/
  | resolution
  /-- A bounded resource was exceeded. -/
  | resource
  /-- The profile lacks what an opcode needs. -/
  | capability
  /-- The program, its image or its configuration is inconsistent. -/
  | program
deriving DecidableEq

/-- Why the machine stopped. -/
inductive Fault where
  | unknownNativeClass (classId : UInt16)
  | unknownNativeMethod (method : MethodRef)
  /-- The class and its ancestors declare no such method. -/
  | unresolvedMethod (method : MethodRef)
  | unknownClass (classId : UInt16)
  | heapExhausted (requested available : Nat)
  /-- A method returned with `residual` values left on its stack. -/
  | stackImbalance (method : MethodRef) (residual : Nat)
  | arrayIndexOutOfBounds (index : Int32) (length : Nat)
  | negativeArraySize (size : Int32)
  | stackOverflow (limit : Nat)
  | callDepthExceeded (limit : Nat)
  | stackUnderflow
  | slotOutOfBounds (index len : Nat)
  /-- The opcode needs a feature that the profile leaves out. -/
  | unsupportedOpcode (opcode : UInt8) (feature : String)
  | invalidOpcode (opcode : UInt8) (pc : Nat)
  | divisionByZero
  /-- The operation `op` met a null reference. -/
  | nullReference (op : String)
  /-- The operation `op` met a value of another kind. -/
  | typeMismatch (op expected found : String)
  | invalidReference (handle : UInt16)
  | invalidLocal (index count : Nat)
  | invalidConstant (index : Nat)
  | invalidImage (defect : ImageDefect)
  | invalidConfig (defect : ConfigDefect)
  /-- A console or a device failed. -/
  | io (text : String)
deriving DecidableEq

namespace Fault

/-- Broad class of a fault. -/
def faultClass : Fault → FaultClass
  | unknownNativeClass _ | unknownNativeMethod _ | unresolvedMethod _
  | unknownClass _ => .resolution
  | heapExhausted .. | stackImbalance .. | arrayIndexOutOfBounds ..
  | negativeArraySize _ | stackOverflow _ | callDepthExceeded _
  | stackUnderflow | slotOutOfBounds .. => .resource
  | unsupportedOpcode .. | invalidOpcode .. => .capability
  | divisionByZero | nullReference _ | typeMismatch .. | invalidReference _
  | invalidLocal .. | invalidConstant _ | invalidImage _ | invalidConfig _
  | io _ => .program

/-- Stable diagnostic code, which is the exit status of a faulting run. -/
def code : Fault → UInt8
  | unknownNativeClass _ => 10
  | unknownNativeMethod _ => 11
  | unresolvedMethod _ => 12
  | unknownClass _ => 13
  | heapExhausted .. => 20
  | stackImbalance .. => 21
  | arrayIndexOutOfBounds .. => 22
  | negativeArraySize _ => 23
  | stackOverflow _ => 24
  | callDepthExceeded _ => 25
  | stackUnderflow => 26
  | slotOutOfBounds .. => 27
  | unsupportedOpcode .. => 30
  | invalidOpcode .. => 31
  | divisionByZero => 40
  | nullReference _ => 41
  | typeMismatch .. => 42
  | invalidReference _ => 43
  | invalidLocal .. => 44
  | invalidConstant _ => 45
  | invalidImage _ => 50
  | invalidConfig _ => 51
  | io _ => 52

/-- The wording of a fault. -/
def message : Fault → String
  | unknownNativeClass classId => s!"unknown native class {classId}"
  | unknownNativeMethod r =>
      s!"unknown native method {r.methodId} on native class {r.classId}"
  | unresolvedMethod r =>
      s!"unresolved method {r.methodId} starting at class {r.classId}"
  | unknownClass classId => s!"unknown class {classId}"
  | heapExhausted requested available =>
      s!"heap exhausted: requested {requested} slots, " ++
        s!"{available} available"
  | stackImbalance r residual =>
      s!"stack imbalance: method {r.methodId} of class {r.classId} " ++
        s!"returned with {residual} values on its stack"
  | arrayIndexOutOfBounds index length =>
      s!"array index {index} out of bounds for length {length}"
  | negativeArraySize size => s!"negative array size {size}"
  | stackOverflow limit => s!"operand stack overflow (limit {limit})"
  | callDepthExceeded limit => s!"call depth exceeded (limit {limit})"
  | stackUnderflow => "operand stack underflow"
  | slotOutOfBounds index len =>
      s!"slot {index} out of bounds for object of {len} slots"
  | unsupportedOpcode opcode feature =>
      let digits := hexByte opcode
      s!"unsupported opcode 0x{digits}: {feature} support is not enabled"
  | invalidOpcode opcode pc =>
      let digits := hexByte opcode
      s!"invalid opcode 0x{digits} at pc {pc}"
  | divisionByZero => "division by zero"
  | nullReference op => s!"null reference in {op}"
  | typeMismatch op expected found =>
      s!"{op}: expected {expected}, found {found}"
  | invalidReference handle => s!"invalid heap reference {handle}"
  | invalidLocal index count =>
      s!"local {index} out of range ({count} locals)"
  | invalidConstant index => s!"invalid constant #{index}"
  | invalidImage defect => "invalid program image: " ++ defect.message
  | invalidConfig defect => "invalid configuration: " ++ defect.message
  | io text => s!"i/o error: {text}"

end Fault

end SlotVm
