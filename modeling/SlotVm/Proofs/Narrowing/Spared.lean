import SlotVm.Machine.Execute
import SlotVm.Proofs.Store.Change

/-!
# What leaves the heap alone

Most instructions and native methods read the heap at most.  There is one
statement for each function of this kind, and its proof has one line for each
line of the function.

On a machine the heap is a part of the store, and what leaves it alone in the
store leaves it alone in the machine (`Machine.Spares.onStore`).
-/

namespace SlotVm

open SlotVm.Action

variable {δ α : Type}

namespace Store.Spares

/-! ## Operations on the store -/

theorem onStack (a : Action Stack α) :
    Spares heap (Store.onStack a : Action (Store δ) α) :=
  fun _ => Ends.onPart (Ends.intro (fun _ _ _ => rfl) fun _ _ _ => rfl)

theorem push (v : Value) : Spares heap (Store.push v : Action (Store δ) Unit) :=
  onStack _

theorem pop : Spares heap (Store.pop : Action (Store δ) Value) := onStack _

theorem popInt (op : String) :
    Spares heap (Store.popInt op : Action (Store δ) Int32) :=
  onStack _

theorem popFloat (op : String) :
    Spares heap (Store.popFloat op : Action (Store δ) Float32) :=
  onStack _

theorem popHandle (op : String) :
    Spares heap (Store.popHandle op : Action (Store δ) UInt16) :=
  pop.bind fun v =>
  Spares.lift (v.asHandle op)

theorem print (text : String) :
    Spares heap (Store.print text : Action (Store δ) Unit) :=
  Spares.modify fun _ => rfl

theorem record (level : Level) (target : String) (text : Unit → String) :
    Spares heap (Store.record level target text : Action (Store δ) Unit) :=
  Spares.modify fun _ => rfl

/-! ## Numbers -/

theorem pushInt (w : Width) (n : Int32) :
    Spares heap (Data.pushInt w n : Action (Store δ) Unit) :=
  push _

theorem popIntPair (op : String) :
    Spares heap (Data.popIntPair op : Action (Store δ) (Int32 × Int32)) :=
  (popInt op).bind fun _ =>
  (popInt op).bind fun _ =>
  Spares.pure _

theorem popFloatPair (op : String) :
    Spares heap (Data.popFloatPair op : Action (Store δ) (Float32 × Float32)) :=
  (popFloat op).bind fun _ =>
  (popFloat op).bind fun _ =>
  Spares.pure _

theorem intQuotient (w : Width) (op : String) (f : Int32 → Int32 → Int32) :
    Spares heap (Data.intQuotient w op f : Action (Store δ) Unit) := by
  refine (popIntPair op).bind fun pair => ?_
  by_cases hzero : pair.2 = 0
  · simp only [if_pos hzero]
    exact Spares.throw _
  · simp only [if_neg hzero]
    exact pushInt w _

theorem intUnary (w : Width) (op : String) (f : Int32 → Int32) :
    Spares heap (Data.intUnary w op f : Action (Store δ) Unit) :=
  (popInt op).bind fun _ =>
  pushInt w _

theorem floatCompare (op : String) (unordered : Int32) :
    Spares heap (Data.floatCompare op unordered : Action (Store δ) Unit) :=
  (popFloatPair op).bind fun _ =>
  push _

/-! ## Arrays and objects -/

theorem popArray (op : String) :
    Spares heap (Data.popArray op : Action (Store δ) (UInt16 × ArrayKind)) := by
  refine (popHandle op).bind fun handle => ?_
  refine (Spares.read _).bind fun entry => ?_
  cases entry.kind.element? with
  | some element => exact Spares.pure _
  | none => exact Spares.throw _

theorem elementAt (handle : UInt16) (index : Int32) :
    Spares heap (Data.elementAt handle index : Action (Store δ) Nat) := by
  refine (Spares.read _).bind fun length => ?_
  by_cases hindex : 0 ≤ index.toInt ∧ index.toInt < length
  · simp only [if_pos hindex]
    exact Spares.pure _
  · simp only [if_neg hindex]
    exact Spares.throw _

theorem pushSlot (handle : UInt16) (index : Nat) :
    Spares heap (Data.pushSlot handle index : Action (Store δ) Unit) :=
  (Spares.read _).bind fun v =>
  push v

theorem arrayLoad (op : String) :
    Spares heap (Data.arrayLoad op : Action (Store δ) Unit) :=
  (popInt op).bind fun index =>
  (popArray op).bind fun array =>
  (elementAt array.1 index).bind fun position =>
  pushSlot array.1 position

theorem arrayLength (w : Width) :
    Spares heap (Data.arrayLength w : Action (Store δ) Unit) :=
  (popArray "arraylength").bind fun _ =>
  (Spares.read _).bind fun _ =>
  pushInt w _

theorem getField (index : Nat) :
    Spares heap (Data.getField index : Action (Store δ) Unit) :=
  (popHandle "getfield").bind fun handle =>
  pushSlot handle index

/-! ## Instructions -/

/-- Instructions without operand, but for the array stores. -/
theorem executeData (w : Width) {op : PlainOp}
    (hop : ∀ element, op ≠ .arrayStore element) :
    Spares heap (Machine.executeData w op : Action (Store δ) Unit) := by
  cases op with
  | pushNull => exact push _
  | pushInt n => exact pushInt w _
  | pushFloat n => exact push _
  | arrayLoad element => exact arrayLoad _
  | arrayStore element => exact absurd rfl (hop element)
  | pop => exact pop.bind fun _ => Spares.pure _
  | pop2 => exact (onStack _).bind fun _ => Spares.pure _
  | dup => exact (Spares.read _).bind fun _ => push _
  | dupX1 =>
    exact pop.bind fun x => pop.bind fun y =>
      (push x).bind fun _ => (push y).bind fun _ => push x
  | dup2 =>
    exact (Spares.read _).bind fun x => (Spares.read _).bind fun y =>
      (push y).bind fun _ => push x
  | swap =>
    exact pop.bind fun x => pop.bind fun y => (push x).bind fun _ => push y
  | intBinary f => exact (popIntPair _).bind fun _ => pushInt w _
  | intDiv => exact intQuotient w _ _
  | intRem => exact intQuotient w _ _
  | intNeg => exact intUnary w _ _
  | floatBinary f => exact (popFloatPair _).bind fun _ => push _
  | floatNeg => exact (popFloat _).bind fun _ => push _
  | intToFloat => exact (popInt _).bind fun _ => push _
  | floatToInt => exact (popFloat _).bind fun _ => push _
  | narrow kind => exact intUnary w _ _
  | floatCompareLess => exact floatCompare _ _
  | floatCompareGreater => exact floatCompare _ _
  | arrayLength => exact arrayLength w
  | nop | load | store | returnValue | returnVoid => exact Spares.pure _

/-- Whether a branch is taken. -/
theorem branchTaken (op : BranchOp) :
    Spares heap (Machine.branchTaken op : Action (Store δ) Bool) := by
  cases op with
  | ifInt c => exact (popInt _).bind fun _ => Spares.pure _
  | ifIntPair c => exact (popIntPair _).bind fun _ => Spares.pure _
  | ifRefPair same => exact pop.bind fun _ => pop.bind fun _ => Spares.pure _
  | goto => exact Spares.pure _
  | ifNull null => exact pop.bind fun _ => Spares.pure _

theorem needFloats (config : Config) (op : Opcode) :
    Spares heap (Machine.needFloats config op : Action (Store δ) Unit) := by
  unfold Machine.needFloats
  split
  · exact Spares.pure _
  · exact Spares.throw _

theorem loadConstant (p : Program) (index : UInt8) :
    Spares heap (Machine.loadConstant p index : Action (Store δ) Unit) := by
  refine (Spares.lift _).bind fun constant => ?_
  cases constant with
  | int n => exact pushInt _ n
  | float x => exact (needFloats _ _).bind fun _ => push _
  | str text => exact push _

/-! ## Console classes -/

theorem printStream (image : Image) (r : MethodRef) :
    Spares heap (Stdio.printStream image r : Action (Store δ) Unit) := by
  unfold Stdio.printStream
  cases Stdio.printMethod? r.methodId with
  | none => exact Spares.throw _
  | some method =>
    obtain ⟨argument?, ending⟩ := method
    cases argument? with
    | none => exact pop.bind fun _ => print ending
    | some argument =>
      exact (Spares.read _).bind fun text => pop.bind fun _ => pop.bind fun _ =>
        print (text ++ ending)

theorem readByte : Spares heap (Stdio.readByte : Action (Store δ) Int32) := by
  intro s
  unfold Stdio.readByte
  apply Ends.modifyGet
  cases s.console.next? with
  | none => rfl
  | some b => rfl

theorem answer (n : Int32) :
    Spares heap (Stdio.answer n : Action (Store δ) Unit) :=
  pop.bind fun _ =>
  push _

theorem inputStream (r : MethodRef) :
    Spares heap (Stdio.inputStream r : Action (Store δ) Unit) := by
  have havailable : Spares heap (Stdio.available : Action (Store δ) Int32) :=
    fun _ => rfl
  unfold Stdio.inputStream
  split
  · exact havailable.bind answer
  · exact readByte.bind answer
  · exact Spares.throw _

theorem operandHandle (op : String) (depth : Nat) :
    Spares heap (Stdio.operandHandle op depth : Action (Store δ) UInt16) :=
  (Spares.read _).bind fun v =>
  Spares.lift (v.asHandle op)

/-- The root class. -/
theorem invokeRoot (image : Image) (r : MethodRef) :
    Spares heap (Family.root.invoke image r : Action (Store δ) Unit) := by
  unfold Family.root
  by_cases hr : r.methodId ≠ Native.constructorId
  · simp only [if_pos hr]
    exact Spares.throw _
  · simp only [if_neg hr]
    exact pop.bind fun _ => Spares.pure _

end Store.Spares

/-! ## The method of a call -/

namespace Store

/-- The action looks at the operand stack and the heap only, and changes
nothing. -/
def Looks (a : Action (Store δ) α) : Prop :=
  ∃ g : Stack → Heap → Except Fault α,
    ∀ s, a s = Action.lift (g s.stack s.heap) s

namespace Looks

variable {β : Type} {a : Action (Store δ) α} {f : α → Action (Store δ) β}

protected theorem lift (r : Except Fault α) :
    Looks (Action.lift r : Action (Store δ) α) :=
  ⟨fun _ _ => r, fun _ => rfl⟩

protected theorem pure (x : α) : Looks (Pure.pure x : Action (Store δ) α) :=
  Looks.lift (.ok x)

protected theorem throw (e : Fault) :
    Looks (throwThe Fault e : Action (Store δ) α) :=
  Looks.lift (.error e)

theorem peek (depth : Nat) :
    Looks (Store.peek depth : Action (Store δ) Value) :=
  ⟨fun stack _ => stack.peek depth, fun _ => rfl⟩

theorem readHeap (g : Heap → Except Fault α) :
    Looks (Store.readHeap g : Action (Store δ) α) :=
  ⟨fun _ heap => g heap, fun _ => rfl⟩

protected theorem bind (ha : Looks a) (hf : ∀ x, Looks (f x)) :
    Looks (a >>= f) := by
  obtain ⟨g, hg⟩ := ha
  obtain ⟨k, hk⟩ := Classical.axiomOfChoice hf
  refine ⟨fun stack heap => g stack heap >>= fun x => k x stack heap, ?_⟩
  intro s
  simp only [Bind.bind, EStateM.bind, hg]
  cases g s.stack s.heap with
  | ok x => exact hk x s
  | error e => rfl

theorem spares (ha : Looks a) : Spares heap a := by
  obtain ⟨g, hg⟩ := ha
  intro s
  unfold Ends
  rw [hg]
  exact Ends.lift (fun _ _ => rfl) fun _ _ => rfl

/-- The result is the same on a store with another log. -/
theorem of_same (ha : Looks a) {s t u : Store δ} {x : α} (hst : Same s t)
    (hok : a t = .ok x u) : a s = .ok x s := by
  obtain ⟨g, hg⟩ := ha
  rw [hg, hst.stack_eq, hst.heap_eq] at hok
  rw [hg]
  cases hresult : g s.stack s.heap with
  | ok y =>
    rw [hresult] at hok
    cases hok
    rfl
  | error e =>
    rw [hresult] at hok
    cases hok

/-- The class of a receiver. -/
theorem receiverClass? (v : Value) :
    Looks (Machine.receiverClass? v : Action (Store δ) (Option UInt16)) := by
  cases v with
  | null | zero => exact Looks.throw _
  | int | float | const => exact Looks.pure _
  | ref handle => exact (readHeap _).bind fun _ => Looks.pure _

/-- The choice of the method of a virtual call. -/
theorem dispatch (p : Program) (r : MethodRef) (found : Resolved) :
    Looks (Machine.dispatch p r found : Action (Store δ) Resolved) := by
  cases found with
  | native r' => exact Looks.pure _
  | method index =>
    refine (Looks.lift _).bind fun method => ?_
    by_cases hargs : method.args.toNat = 0
    · simp only [if_pos hargs]
      exact Looks.pure _
    · simp only [if_neg hargs]
      refine (peek _).bind fun v => (receiverClass? v).bind fun class? => ?_
      cases class? with
      | none => exact Looks.pure _
      | some classId =>
        simp only
        split
        · exact Looks.pure _
        · split
          · exact Looks.lift _
          · exact Looks.throw _

end Looks

end Store

namespace Machine

/-- The heap of a machine. -/
def heap (m : Machine δ) : Heap := m.store.heap

namespace Spares

/-! ## Calls and local variables -/

theorem onStore {a : Action (Store δ) α} (ha : Spares Store.heap a) :
    Spares heap (Machine.onStore a) := by
  intro m
  unfold Ends
  simp only [Machine.onStore]
  have hend := ha m.store
  cases h : a m.store with
  | ok x t => exact hend.of_ok h
  | error e t => exact hend.of_error h

theorem updateFrame (f : Frame → Except Fault Frame) :
    Spares heap (Machine.updateFrame f : Action (Machine δ) Unit) := by
  intro m
  unfold Ends Machine.updateFrame
  cases m.frames with
  | nil => rfl
  | cons current callers =>
    simp only
    cases f current with
    | ok next => rfl
    | error e => rfl

theorem loadLocal (index : Nat) :
    Spares heap (Machine.loadLocal index : Action (Machine δ) Unit) :=
  (Spares.read _).bind fun f =>
  (Spares.lift (f.getLocal index)).bind fun v =>
  onStore (Store.Spares.push v)

theorem storeLocal (index : Nat) :
    Spares heap (Machine.storeLocal index : Action (Machine δ) Unit) :=
  (onStore Store.Spares.pop).bind fun _ =>
  updateFrame _

theorem jumpIf (taken : Bool) (position : Nat) :
    Spares heap (Machine.jumpIf taken position : Action (Machine δ) Unit) := by
  unfold Machine.jumpIf
  split
  · exact updateFrame _
  · exact Spares.pure _

theorem traceCall (r : MethodRef) :
    Spares heap (Machine.traceCall r : Action (Machine δ) Unit) := by
  intro m
  refine Ends.bind_ok rfl ?_
  split
  · exact Ends.bind_ok rfl (onStore (Store.Spares.record _ _ _) m)
  · exact Ends.pure rfl

theorem enter (f : Frame) :
    Spares heap (Machine.enter f : Action (Machine δ) Unit) := by
  intro m
  unfold Ends Machine.enter
  by_cases hdepth : m.frames.length < m.program.config.maxCallDepth
  · simp only [if_pos hdepth]
    rfl
  · simp only [if_neg hdepth]

theorem settle (f : Frame) :
    Spares heap (Machine.settle f : Action (Machine δ) Unit) := by
  intro m
  unfold Ends Machine.settle
  by_cases hunder : m.store.stack.size < f.base
  · simp only [if_pos hunder]
  · simp only [if_neg hunder]
    by_cases hnone : m.store.stack.size - f.base = 0
    · simp only [if_pos hnone]
    · simp only [if_neg hnone]
      cases m.program.config.residue with
      | verify =>
        cases m.program.image.method f.method with
        | ok method => rfl
        | error e => rfl
      | discard | retain => rfl

theorem returnFrom (value : Option Value) :
    Spares heap (Machine.returnFrom value : Action (Machine δ) Flow) := by
  have hleave : Spares heap (Machine.leave : Action (Machine δ) Unit) :=
    Spares.modify fun _ => rfl
  refine (Spares.read _).bind fun f => (settle f).bind fun _ =>
    hleave.bind fun _ => ?_
  intro m
  refine Ends.bind_ok rfl ?_
  split
  · exact Ends.pure rfl
  · cases value with
    | none => exact Ends.pure rfl
    | some v =>
      exact ((onStore (Store.Spares.push v)).bind fun _ => Spares.pure _) m

end Spares

end Machine

end SlotVm
