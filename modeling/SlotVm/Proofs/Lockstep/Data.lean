import SlotVm.Machine.Execute
import SlotVm.Proofs.Lockstep.Store

/-!
# Instructions side by side

Every instruction that works on the store does the same on two stores of a
variation.  There is one statement for each function of `SlotVm.Data` and for
each lookup in a program, and its proof has one line for each line of the
function.

The two sides of an instruction that looks at the program are different
actions, since their programs differ.  They read the same image, and of the
configuration they read the parts that a variation leaves alone, and the
feature `float`, whose absence is an excused fault.
-/

namespace SlotVm.Variation

open SlotVm.Action

variable {δ α : Type} {v : Variation} {k : Nat}

/-- The program of the first machine. -/
def program (v : Variation) : Program := .load v.config v.image

/-- The program of the second machine. -/
def program' (v : Variation) : Program := .load v.config' v.image

namespace Uniform

/-! ## Numbers -/

theorem pushInt (w : Width) (n : Int32) :
    v.Uniform δ k (Data.pushInt w n) (Data.pushInt w n) :=
  push _

theorem popIntPair (op : String) :
    v.Uniform δ v.height (Data.popIntPair op) (Data.popIntPair op) :=
  (popInt op).bind fun _ =>
  (popInt op).bind fun _ =>
  Uniform.pure _

theorem popFloatPair (op : String) :
    v.Uniform δ v.height (Data.popFloatPair op)
      (Data.popFloatPair op) :=
  (popFloat op).bind fun _ =>
  (popFloat op).bind fun _ =>
  Uniform.pure _

theorem intBinary (w : Width) (op : IntOp) :
    v.Uniform δ v.height (Data.intBinary w op)
      (Data.intBinary w op) :=
  (popIntPair op.mnemonic).bind fun _ =>
  pushInt w _

theorem intQuotient (w : Width) (op : String) (f : Int32 → Int32 → Int32) :
    v.Uniform δ v.height (Data.intQuotient w op f)
      (Data.intQuotient w op f) := by
  refine (popIntPair op).bind ?_
  intro pair
  obtain ⟨a, b⟩ := pair
  by_cases hb : b = 0
  · simp only [if_pos hb]
    exact Uniform.throw _
  · simp only [if_neg hb]
    exact pushInt w _

theorem intUnary (w : Width) (op : String) (f : Int32 → Int32) :
    v.Uniform δ v.height (Data.intUnary w op f)
      (Data.intUnary w op f) :=
  (popInt op).bind fun _ =>
  pushInt w _

theorem floatBinary (op : FloatOp) :
    v.Uniform δ v.height (Data.floatBinary op)
      (Data.floatBinary op) :=
  (popFloatPair op.mnemonic).bind fun _ =>
  push _

theorem floatCompare (op : String) (unordered : Int32) :
    v.Uniform δ v.height (Data.floatCompare op unordered)
      (Data.floatCompare op unordered) :=
  (popFloatPair op).bind fun _ =>
  push _

/-! ## The operand stack -/

theorem dup : v.Uniform δ v.height Data.dup Data.dup :=
  (peek 0).bind fun x =>
  push x

theorem dupX1 : v.Uniform δ v.height Data.dupX1 Data.dupX1 :=
  pop.bind fun x =>
  pop.bind fun y =>
  (push x).bind fun _ =>
  (push y).bind fun _ =>
  push x

theorem dup2 : v.Uniform δ v.height Data.dup2 Data.dup2 :=
  (peek 0).bind fun x =>
  (peek 1).bind fun y =>
  (push y).bind fun _ =>
  push x

theorem swap : v.Uniform δ v.height Data.swap Data.swap :=
  pop.bind fun x =>
  pop.bind fun y =>
  (push x).bind fun _ =>
  push y

/-! ## Arrays -/

theorem popArray (op : String) :
    v.Uniform δ v.height (Data.popArray op) (Data.popArray op) := by
  refine (popHandle op).bind fun handle => ?_
  refine (readHeap fun _ _ => rfl).bind fun entry => ?_
  cases entry.kind.element? with
  | some element => exact Uniform.pure _
  | none => exact Uniform.throw _

theorem elementAt (handle : UInt16) (index : Int32) :
    v.Uniform δ k (Data.elementAt handle index)
      (Data.elementAt handle index) := by
  refine (readHeap fun _ _ => rfl).bind fun length => ?_
  by_cases hindex : 0 ≤ index.toInt ∧ index.toInt < length
  · simp only [if_pos hindex]
    exact Uniform.pure _
  · simp only [if_neg hindex]
    exact Uniform.throw _

theorem arrayLoad (op : String) :
    v.Uniform δ v.height (Data.arrayLoad op) (Data.arrayLoad op) :=
  (popInt op).bind fun index =>
  (popArray op).bind fun array =>
  (elementAt array.1 index).bind fun position =>
  (loadSlot array.1 position).bind fun x =>
  push x

theorem arrayStore (op : String) :
    v.Uniform δ v.height (Data.arrayStore op) (Data.arrayStore op) :=
  pop.bind fun x =>
  (popInt op).bind fun index =>
  (popArray op).bind fun array =>
  (elementAt array.1 index).bind fun position =>
  (Uniform.lift (array.2.narrow op x)).bind fun narrowed =>
  storeSlot array.1 position narrowed

theorem allocate (kind : ObjectKind) (zeroed : Bool) (count : Nat) :
    v.Uniform δ k (Store.onHeap (Heap.allocateKind kind zeroed count))
      (Store.onHeap (Heap.allocateKind kind zeroed count)) :=
  Uniform.onHeap
    (heap_allocate fun _ hl => hl.allocateKind_eq kind zeroed count)

theorem newArray (element : ArrayKind) :
    v.Uniform δ v.height (Data.newArray element)
      (Data.newArray element) := by
  refine (popInt "newarray").bind fun size => ?_
  by_cases hsize : size < 0
  · simp only [if_pos hsize]
    exact Uniform.throw _
  · simp only [if_neg hsize]
    unfold Heap.allocateArray
    exact (allocate _ _ _).bind fun _ => push _

theorem arrayLength (w : Width) :
    v.Uniform δ v.height (Data.arrayLength w) (Data.arrayLength w) :=
  (popArray "arraylength").bind fun _ =>
  (readHeap fun _ _ => rfl).bind fun _ =>
  pushInt w _

/-! ## Objects -/

theorem pushSlot (handle : UInt16) (index : Nat) :
    v.Uniform δ k (Data.pushSlot handle index)
      (Data.pushSlot handle index) :=
  (loadSlot handle index).bind fun x =>
  push x

theorem popIntoSlot (handle : UInt16) (index : Nat) :
    v.Uniform δ v.height (Data.popIntoSlot handle index)
      (Data.popIntoSlot handle index) :=
  pop.bind fun x =>
  storeSlot handle index x

theorem getField (index : Nat) :
    v.Uniform δ v.height (Data.getField index)
      (Data.getField index) :=
  (popHandle "getfield").bind fun handle =>
  pushSlot handle index

theorem putField (index : Nat) :
    v.Uniform δ v.height (Data.putField index)
      (Data.putField index) :=
  pop.bind fun x =>
  (popHandle "putfield").bind fun handle =>
  storeSlot handle index x

/-- Instructions without operand that change the store only. -/
theorem executeData (w : Width) (op : PlainOp) :
    v.Uniform δ v.height (Machine.executeData w op)
      (Machine.executeData w op) := by
  cases op with
  | pushNull => exact push _
  | pushInt n => exact pushInt w _
  | pushFloat n => exact push _
  | arrayLoad tag => exact arrayLoad _
  | arrayStore tag => exact arrayStore _
  | pop => exact pop.bind fun _ => Uniform.pure _
  | pop2 => exact (popN 2).bind fun _ => Uniform.pure _
  | dup => exact dup
  | dupX1 => exact dupX1
  | dup2 => exact dup2
  | swap => exact swap
  | intBinary f => exact intBinary w f
  | intDiv => exact intQuotient w _ _
  | intRem => exact intQuotient w _ _
  | intNeg => exact intUnary w _ _
  | floatBinary f => exact floatBinary f
  | floatNeg => exact (popFloat _).bind fun _ => push _
  | intToFloat => exact (popInt _).bind fun _ => push _
  | floatToInt => exact (popFloat _).bind fun _ => push _
  | narrow kind => exact intUnary w _ _
  | floatCompareLess => exact floatCompare _ _
  | floatCompareGreater => exact floatCompare _ _
  | arrayLength => exact arrayLength w
  | nop | load | store | returnValue | returnVoid => exact Uniform.pure _

/-- Whether a branch is taken. -/
theorem branchTaken (op : BranchOp) :
    v.Uniform δ v.height (Machine.branchTaken op)
      (Machine.branchTaken op) := by
  cases op with
  | ifInt c => exact (popInt _).bind fun _ => Uniform.pure _
  | ifIntPair c => exact (popIntPair _).bind fun _ => Uniform.pure _
  | ifRefPair same =>
    exact pop.bind fun _ =>
      pop.bind fun _ =>
      Uniform.pure _
  | goto => exact Uniform.pure _
  | ifNull null => exact pop.bind fun _ => Uniform.pure _

/-! ## Instructions that look at the program -/

/-- Float support is looked at for a fault only. -/
theorem needFloats (op : Opcode) :
    v.Uniform δ k (Machine.needFloats v.config op)
      (Machine.needFloats v.config' op) := by
  intro s s' hs
  unfold Machine.needFloats
  by_cases hfloat : v.config.features.float = true
  · rw [if_pos hfloat, if_pos (v.relaxes.float_le hfloat)]
    exact Uniform.pure _ s s' hs
  · rw [if_neg hfloat]
    by_cases heq : v.config'.features = v.config.features
    · rw [heq, if_neg hfloat]
      exact Uniform.throw _ s s' hs
    · exact .inl heq

theorem loadConstant (index : UInt8) :
    v.Uniform δ k (Machine.loadConstant v.program index)
      (Machine.loadConstant v.program' index) := by
  have hword : v.program'.config.word = v.program.config.word :=
    v.relaxes.word_eq
  unfold Machine.loadConstant
  rw [hword]
  refine (Uniform.lift (v.image.constant index.toNat)).bind fun c => ?_
  cases c with
  | int n => exact pushInt _ n
  | float x => exact (needFloats _).bind fun _ => push _
  | str text => exact push _

theorem newArrayOf (typeCode : UInt8) :
    v.Uniform δ v.height (Machine.newArray v.program typeCode)
      (Machine.newArray v.program' typeCode) := by
  unfold Machine.newArray
  cases ArrayKind.ofTypeCode? typeCode with
  | none => exact Uniform.throw _
  | some element =>
    by_cases hfloat : element = .float
    · simp only [if_pos hfloat]
      exact (needFloats _).bind fun _ => newArray element
    · simp only [if_neg hfloat]
      exact newArray element

/-- An instance of a native class. -/
theorem construct (classId : UInt16) :
    v.Uniform δ k (Bridge.construct classId)
      (Bridge.construct classId) := by
  unfold Bridge.construct
  by_cases hclass : classId ≠ Native.stringBuffer
  · simp only [if_pos hclass]
    exact Uniform.throw _
  · simp only [if_neg hclass]
    unfold Heap.allocate
    exact (allocate _ _ _).bind fun _ => push _

theorem newObject (classId : UInt16) :
    v.Uniform δ k (Machine.newObject v.program classId)
      (Machine.newObject v.program' classId) := by
  have hnative : v.program'.config.native = v.program.config.native :=
    v.relaxes.native_eq
  unfold Machine.newObject
  rw [hnative]
  by_cases hclass : v.program.config.native.Contains classId
  · simp only [if_pos hclass]
    exact construct classId
  · simp only [if_neg hclass]
    refine (Uniform.lift (v.image.classOf classId)).bind fun c => ?_
    unfold Data.newObject Heap.allocateObject
    exact (allocate _ _ _).bind fun _ => push _

/-- The class of a receiver. -/
theorem receiverClass? (receiver : Value) :
    v.Uniform δ k (Machine.receiverClass? receiver)
      (Machine.receiverClass? receiver) := by
  cases receiver with
  | null | zero => exact Uniform.throw _
  | ref handle =>
    exact (readHeap fun _ _ => rfl).bind fun _ =>
      Uniform.pure _
  | int | float | const => exact Uniform.pure _

/-- The method that a virtual call runs. -/
theorem dispatch (r : MethodRef) (found : Resolved) :
    v.Uniform δ v.height (Machine.dispatch v.program r found)
      (Machine.dispatch v.program' r found) := by
  have hnative : v.program'.config.native = v.program.config.native :=
    v.relaxes.native_eq
  have himage : v.program'.image = v.program.image := rfl
  cases found with
  | native r' => exact Uniform.pure _
  | method index =>
    unfold Machine.dispatch
    rw [hnative, himage]
    refine (Uniform.lift (v.image.method index)).bind fun method => ?_
    by_cases hargs : method.args.toNat = 0
    · simp only [if_pos hargs]
      exact Uniform.pure _
    · simp only [if_neg hargs]
      refine (peek _).bind fun receiver => ?_
      refine (receiverClass? receiver).bind fun class? => ?_
      cases class? with
      | none => exact Uniform.pure _
      | some classId =>
        by_cases hsame : classId = r.classId
        · simp only [if_pos hsame]
          exact Uniform.pure _
        · simp only [if_neg hsame]
          by_cases hsub :
              v.program.image.isSubclass classId r.classId = true
          · simp only [if_pos hsub]
            exact Uniform.lift _
          · simp only [if_neg hsub]
            exact Uniform.throw _

end Uniform

end SlotVm.Variation
