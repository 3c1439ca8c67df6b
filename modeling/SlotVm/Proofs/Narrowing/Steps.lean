import SlotVm.Proofs.Machine.Session
import SlotVm.Proofs.Narrowing.Writes

/-!
# What a step writes to the heap

`Operation.Puts` says which values an operation writes into slots of objects
as they are.  There are two ways: `putfield`, and a method of the string
buffer that an invoke instruction comes to (`Operation.RunsNative`).
`step_narrows` says that a step adds no other elements to arrays than those
that the arrays admit.
-/

namespace SlotVm

open SlotVm.Action

variable {δ : Type}

/-- The native method that a lookup has found, if it has found one. -/
def Resolved.native? (image : Image) : Resolved → Option MethodRef
  | .native r => some r
  | .method index =>
      (image.methods[index]?).bind fun method =>
        if method.isNative then some method.ref else none

/-- The method that an invoke instruction calls. -/
def Machine.callee (p : Program) (kind : InvokeKind) (raw : UInt16) :
    Action (Store δ) Resolved := do
  let r := p.config.native.layout.unpack raw
  if p.config.native.Contains r.classId then
    return .native r
  else
    let inherit := p.config.features.inheritance
    let found ← Action.lift (p.image.resolve p.config.native r inherit)
    if kind = .virtual ∧ inherit then
      Machine.dispatch p r found
    else
      return found

/-- The operation runs the native method. -/
def Operation.RunsNative (p : Program) (s : Store δ) (o : Operation)
    (r : MethodRef) : Prop :=
  ∃ kind raw found t, o = .index (.invoke kind) raw ∧
    Machine.callee p kind raw s = .ok found t ∧
    found.native? p.image = some r

/-- The values that an operation writes into slots of objects as they are. -/
inductive Operation.Puts (p : Program) (s : Store δ) (o : Operation) :
    UInt16 → Nat → Value → Prop where
  | field {index r : UInt16} {v : Value} {below : List Value} :
      o = .index .putField index →
      s.stack.operands = below ++ [.ref r, v] →
      Puts p s o r index.toNat v
  | native {r : MethodRef} {buffer : UInt16} {i : Nat} {v : Value} :
      o.RunsNative p s r → r.Puts s buffer i v → Puts p s o buffer i v

namespace Machine

open Store

variable {p : Program} {o : Operation} {m m' n : Machine δ}
variable {X : UInt16 → Nat → Value → Prop} {f : Frame} {callers : List Frame}

/-- The static fields are a block. -/
def StaticBlock (m : Machine δ) : Prop :=
  ∃ entry, m.heap.objects[m.statics.toNat]? = some entry ∧
    entry.kind = .chunk

theorem onStore_narrows {α : Type} {a : Action (Store δ) α}
    (ha : Narrows Store.heap X a n.store) :
    Narrows heap X (Machine.onStore a) n :=
  onStore_ends ha

theorem callNative_narrows (h : Turn p f callers n) (r : MethodRef) :
    Narrows heap (r.Puts n.store) (Machine.callNative r) n := by
  refine Ends.bind_ok rfl (onStore_narrows ?_)
  exact invoke_narrows h.founded.standard h.founded.sound.bounded
    h.founded.sound.laid r

/-- A method that a lookup has found. -/
theorem call_narrows (h : Turn p f callers n) {found : Resolved}
    (hfound : found.Present p.image)
    (hX : ∀ r, found.native? p.image = some r →
      ∀ buffer i v, r.Puts n.store buffer i v → X buffer i v) :
    Narrows heap X (Machine.call found) n := by
  have hl := h.founded.sound.laid
  have hnative : ∀ r, found.native? p.image = some r →
      Narrows heap X (Machine.callNative r) n := by
    intro r hr
    apply (callNative_narrows h r).mono
    · exact fun _ _ hu => hu.mono (hX r hr)
    · exact fun _ _ hu => hu.mono (hX r hr)
  cases found with
  | native r => exact hnative r rfl
  | method index =>
    obtain ⟨method, hmethod⟩ := hfound
    refine .bind_ok h.getProgram ?_
    refine .bind_ok (lift_of_ok (Image.method_of_entry hmethod)) ?_
    cases hcode : method.isNative with
    | true =>
      simp only [if_true]
      apply hnative
      simp [Resolved.native?, hmethod, hcode]
    | false =>
      simp only [Bool.false_eq_true, if_false]
      refine .of_spares ?_ hl
      exact (Spares.onStore (Store.Spares.onStack _)).bind fun _ =>
        (Spares.traceCall _).bind fun _ => Spares.get.bind fun _ =>
          Spares.enter _

/-- An invoke instruction calls what it comes to. -/
theorem invoke_eq (kind : InvokeKind) (raw : UInt16) (m : Machine δ) :
    Machine.invoke kind raw m = (do
      let found ← Machine.onStore (callee m.program kind raw)
      Machine.call found) m := by
  refine (seq_of_ok rfl).trans ?_
  unfold callee
  simp only
  split
  · exact (seq_of_ok rfl).symm
  · simp only [Bind.bind, EStateM.bind, Machine.onStore]
    cases m.program.image.resolve m.program.config.native
      (m.program.config.native.layout.unpack raw)
      m.program.config.features.inheritance with
    | error e => rfl
    | ok found =>
      simp only [Action.lift]
      split
      · rfl
      · rfl

theorem callee_looks (p : Program) (kind : InvokeKind) (raw : UInt16) :
    Looks (callee p kind raw : Action (Store δ) Resolved) := by
  unfold callee
  simp only
  split
  · exact Looks.pure _
  · refine (Looks.lift _).bind fun found => ?_
    split
    · exact Looks.dispatch _ _ _
    · exact Looks.pure _

/-- An invoke instruction finds a method that is there. -/
theorem callee_ends {K : Value → Prop} {statics : UInt16} {s : Store δ}
    {F : Fault → Prop} (h : Ready p K statics s F)
    (hchecked : p.image.Checked p.config) (kind : InvokeKind) (raw : UInt16) :
    Ends (callee p kind raw) s (fun found t => t = s ∧ found.Present p.image)
      fun _ t => t.heap = s.heap := by
  unfold callee
  simp only
  split
  · exact Ends.pure ⟨rfl, trivial⟩
  · have hresolve : ∀ {r inherit},
        Ends (Action.lift (p.image.resolve p.config.native r inherit)) s
          (fun found t => t = s ∧ found.Present p.image)
          (fun _ t => t.heap = s.heap) :=
      Ends.lift (fun _ hfound => ⟨rfl, Image.resolve_present hfound⟩)
        fun _ _ => rfl
    refine hresolve.bind ?_
    rintro found t ⟨rfl, hfound⟩
    split
    · apply Ends.intro
      · exact fun _ _ hok => (h.dispatch hchecked _ hfound).of_ok hok
      · exact fun _ _ herror =>
          ((Looks.dispatch p _ found).spares t).of_error herror
    · exact Ends.pure ⟨rfl, hfound⟩

/-- An invoke instruction. -/
theorem invoke_narrows (h : Turn p f callers n) (kind : InvokeKind)
    (raw : UInt16) :
    Narrows heap (Operation.Puts p n.store (.index (.invoke kind) raw))
      (Machine.invoke kind raw) n := by
  have hready : Ready p f.Holds n.statics n.store (fun _ => True) :=
    ⟨h.founded.sound, h.founded.holds h.frames_eq, fun _ _ => trivial⟩
  have hcallee : Ends (Machine.onStore (callee p kind raw)) n
      (fun found u => u.heap = n.heap ∧ u = n ∧ found.Present p.image ∧
        callee p kind raw n.store = .ok found n.store)
      (fun _ u => u.heap = n.heap) := by
    apply onStore_ends
    apply (callee_ends hready h.founded.valid.image kind raw).with_end.mono
    · rintro found _ ⟨hok, rfl, hfound⟩
      exact ⟨rfl, rfl, hfound, hok⟩
    · exact fun _ _ hend => hend.2
  unfold Narrows Ends
  rw [invoke_eq, h.founded.program_eq]
  refine Narrows.bind_ends hcallee h.founded.sound.laid ?_
  rintro found u - ⟨rfl, hfound, hok⟩
  apply call_narrows h hfound
  exact fun r hr _ _ _ hputs => .native ⟨kind, raw, _, _, rfl, hok, hr⟩ hputs

/-- Instructions with an index. -/
theorem executeIndex_narrows (h : Turn p f callers n) (hs : n.StaticBlock)
    (op : IndexOp) (operand : UInt16) :
    Narrows heap (Operation.Puts p n.store (.index op operand))
      (Machine.executeIndex p op operand) n := by
  have hl := h.founded.sound.laid
  cases op with
  | getStatic =>
    exact .of_spares (Spares.get.bind fun _ =>
      Spares.onStore (Store.Spares.pushSlot _ _)) hl
  | putStatic =>
    obtain ⟨entry, hentry, hkind⟩ := hs
    refine .bind_ok rfl (onStore_narrows ?_)
    refine popIntoSlot_narrows hl hentry ?_ _
    intro k hk
    cases hkind.symm.trans hk
  | getField => exact .of_spares (Spares.onStore (Store.Spares.getField _)) hl
  | putField =>
    apply onStore_narrows
    apply putField_narrows h.founded.sound.bounded hl
    exact fun below r v hoperands => .field rfl hoperands
  | invoke kind => exact invoke_narrows h kind operand
  | new =>
    apply onStore_narrows
    unfold newObject
    split
    · unfold Bridge.construct
      by_cases hclass : operand ≠ Native.stringBuffer
      · simp only [if_pos hclass]
        exact .of_spares (Spares.throw _) hl
      · simp only [if_neg hclass]
        exact newBlock_narrows hl (fun _ hk => by cases hk) false 1
    · refine .bind_spares (Spares.lift _) hl fun c t ht => ?_
      rw [← ht] at hl
      exact newBlock_narrows hl (fun _ hk => by cases hk) true _
  | newRefArray => exact onStore_narrows (newArray_narrows hl .reference)

/-- A new array with the element kind of a type code. -/
theorem newArrayOf_narrows {s : Store δ} (hl : s.heap.Laid) (p : Program)
    (typeCode : UInt8) :
    Narrows Store.heap X (Machine.newArray p typeCode) s := by
  unfold Machine.newArray
  cases ArrayKind.ofTypeCode? typeCode with
  | none => exact .of_spares (Spares.throw _) hl
  | some element =>
    by_cases hfloat : element = .float
    · simp only [if_pos hfloat]
      refine .bind_spares (Store.Spares.needFloats _ _) hl fun _ t ht => ?_
      rw [← ht] at hl
      exact newArray_narrows hl element
    · simp only [if_neg hfloat]
      exact newArray_narrows hl element

/-- The heap after an operation. -/
theorem execute_narrows (h : Turn p f callers n) (hs : n.StaticBlock)
    (o : Operation) :
    Narrows heap (Operation.Puts p n.store o) (Machine.execute o) n := by
  have hl := h.founded.sound.laid
  have hproceed : ∀ {X} {a : Action (Machine δ) Unit}, Narrows heap X a n →
      Narrows heap X (proceed a) n :=
    fun ha => ha.bind fun _ _ ht => .of_spares (Spares.pure _) ht
  refine .bind_ok h.getProgram ?_
  cases o with
  | plain op =>
    cases op with
    | load tag slot => exact hproceed (.of_spares (Spares.loadLocal _) hl)
    | store tag slot => exact hproceed (.of_spares (Spares.storeLocal _) hl)
    | returnValue tag =>
      exact .of_spares ((Spares.onStore Store.Spares.pop).bind fun _ =>
        Spares.returnFrom _) hl
    | returnVoid => exact .of_spares (Spares.returnFrom _) hl
    | arrayStore tag =>
      exact hproceed (onStore_narrows
        (arrayStore_narrows h.founded.sound.bounded hl _))
    | _ =>
      refine hproceed (.of_spares (Spares.onStore ?_) hl)
      apply Store.Spares.executeData
      intro element heq
      cases heq
  | immediate op k =>
    exact hproceed (.of_spares (Spares.onStore (Store.Spares.push _)) hl)
  | byteOperand op operand =>
    apply hproceed
    cases op with
    | loadConstant =>
      exact .of_spares (Spares.onStore (Store.Spares.loadConstant _ _)) hl
    | load tag => exact .of_spares (Spares.loadLocal _) hl
    | store tag => exact .of_spares (Spares.storeLocal _) hl
    | newArray => exact onStore_narrows (newArrayOf_narrows hl p operand)
  | index op operand => exact hproceed (executeIndex_narrows h hs op operand)
  | branch op position =>
    exact hproceed (.of_spares ((Spares.onStore
      (Store.Spares.branchTaken op)).bind fun _ => Spares.jumpIf _ _) hl)
  | increment slot delta => exact hproceed (.of_spares (Spares.updateFrame _) hl)
  | tableSwitch fallback low targets =>
    exact hproceed (.of_spares ((Spares.onStore
      (Store.Spares.popInt _)).bind fun _ => Spares.updateFrame _) hl)
  | lookupSwitch fallback pairs =>
    exact hproceed (.of_spares ((Spares.onStore
      (Store.Spares.popInt _)).bind fun _ => Spares.updateFrame _) hl)

/-! ## Steps -/

/-- The next step writes the value into the slot as it is, unless it stops at
a fault. -/
def Puts (m : Machine δ) (r : UInt16) (i : Nat) (v : Value) : Prop :=
  ∃ o, m.Executes o ∧ o.Puts m.program m.store r i v

end Machine

/-- The log does not count. -/
theorem Operation.Puts.of_same {p : Program} {s t : Store δ} {o : Operation}
    {r : UInt16} {i : Nat} {v : Value} (hst : Store.Same s t)
    (h : o.Puts p t r i v) : o.Puts p s r i v := by
  cases h with
  | field ho hoperands =>
    rw [hst.stack_eq] at hoperands
    exact .field ho hoperands
  | native hruns hputs =>
    obtain ⟨kind, raw, found, u, ho, hok, hfound⟩ := hruns
    have hok' := (Machine.callee_looks p kind raw).of_same hst hok
    exact .native ⟨kind, raw, found, s, ho, hok', hfound⟩ (hputs.of_same hst)

namespace Machine

/-- A step adds no elements but those that arrays admit and those that it
puts there. -/
theorem step_narrows {p : Program} {m m' : Machine δ} (hm : m.Founded p)
    (ha : m.Active p) (hs : m.StaticBlock) (hstep : Leaves step m m') :
    m.heap.Narrows m.Puts m'.heap := by
  have hexecute : ∀ {i f callers n}, Poised p i f callers m n →
      Narrows heap m.Puts (execute i.operation) n := by
    intro i f callers n h
    have hstatic : n.StaticBlock := by
      unfold StaticBlock heap
      rw [h.same.heap_eq, h.statics_eq]
      exact hs
    have hputs : ∀ r k v, i.operation.Puts p n.store r k v → m.Puts r k v := by
      intro r k v hv
      rw [← hm.program_eq] at hv
      exact ⟨i.operation, ⟨i, h.fetched, rfl⟩, hv.of_same h.same⟩
    exact (execute_narrows h.turn hstatic i.operation).mono
      (fun _ _ hu => hu.mono hputs) fun _ _ hu => hu.mono hputs
  have hends := step_executes hm ha
  rcases hstep with ⟨flow, hok⟩ | ⟨e, herror⟩
  · obtain ⟨i, f, callers, n, hpoised, -, hflow⟩ := hends.of_ok hok
    have hheap : n.heap = m.heap := hpoised.same.heap_eq
    rw [← hheap]
    exact (hexecute hpoised).of_ok hflow
  · rcases hends.of_error herror with
      ⟨rfl, -⟩ | ⟨i, f, callers, n, hpoised, -, hfault⟩
    · exact .refl hm.sound.laid
    · have hheap : n.heap = m.heap := hpoised.same.heap_eq
      rw [← hheap]
      exact (hexecute hpoised).of_error hfault

end Machine

end SlotVm
