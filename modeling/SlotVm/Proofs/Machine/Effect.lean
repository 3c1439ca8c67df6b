import SlotVm.Machine.Call
import SlotVm.Proofs.Decode
import SlotVm.Proofs.Image
import SlotVm.Proofs.Store.Native

/-!
# What an operation does to a machine

An operation of the current call has one of three effects.  Either the call
goes on (`Machine.Stays`), or it calls a method with code (`Machine.Calls`),
or it returns (`Machine.Returns`).  An operation that stops at a fault
leaves the calls as they are (`Machine.Halts`).  Each effect says everything
that the theorems about runs need, so that nothing else has to look at the
operations again.

`Operation.MayWrite` and `Operation.MayRaise` are the two facts that depend
on the operation itself: which objects it writes, and which faults it can
raise besides those that any operation can.

A machine has two invariants.  `Machine.Founded` holds between runs as well
as in them: the program has been checked, the store is sound and the locals
are grounded.  `Machine.Active` holds while a run is active and relates the
frames to each other and to the operand stack.  The second half of this file
shows that every effect keeps both.
-/

namespace SlotVm

/-! ## Operations -/

/-- The objects that the operation may write.  The block of the static fields
is written by `putstatic` only, which writes nothing else. -/
def Operation.MayWrite (statics : UInt16) (o : Operation) (r : UInt16) :
    Prop :=
  match o with
  | .index .putStatic _ => r = statics
  | _ => r ≠ statics

/-- The operation reads or writes an element of an array. -/
def Operation.isElementAccess : Operation → Bool
  | .plain (.arrayLoad _) | .plain (.arrayStore _) => true
  | _ => false

/-- The operation returns a value to the caller. -/
def Operation.returnsValue : Operation → Bool
  | .plain (.returnValue _) => true
  | _ => false

/-- The operation names a class that the image does not have. -/
def Operation.NamesUnknown (p : Program) (classId : UInt16)
    (o : Operation) : Prop :=
  p.image.class? classId = none ∧
    (o = .index .new classId ∨ ∃ kind raw, o = .index (.invoke kind) raw ∧
      (p.config.native.layout.unpack raw).classId = classId)

/-- The operation can raise the fault. -/
def Operation.MayRaise (p : Program) (o : Operation) : Fault → Prop
  | .invalidConfig _ | .io _ | .invalidReference _ => False
  | .invalidImage d => ∃ typeCode, o = .byteOperand .newArray typeCode ∧
      ArrayKind.ofTypeCode? typeCode = none ∧ d = .arrayType typeCode
  | .invalidConstant n => ∃ operand, o = .byteOperand .loadConstant operand ∧
      operand.toNat = n ∧ p.image.constants[n]? = none
  | .unknownClass classId => o.NamesUnknown p classId
  | .slotOutOfBounds .. => o.isElementAccess = false
  | .stackOverflow _ => o.opcode.isReturn = false
  | _ => True

/-- Only a return has a common fault that it cannot raise. -/
theorem Operation.mayRaise_of_common {p : Program} {o : Operation} {e : Fault}
    (ho : o.opcode.isReturn = false) (he : e.Common) : o.MayRaise p e := by
  cases e with
  | stackOverflow n => exact ho
  | unknownClass | slotOutOfBounds | invalidReference | invalidConstant
  | invalidImage | invalidConfig | io => exact False.elim he
  | _ => trivial

/-- Values in the local variables. -/
def Frame.Holds (f : Frame) (v : Value) : Prop := v ∈ f.locals

/-- The frame is a call of a method with code, at a position of the code or
at its end.  It has a local variable for each one that the method declares,
and for each argument if there are more of them. -/
def Frame.Fits (image : Image) (f : Frame) : Prop :=
  ∃ method address len, image.methods[f.method]? = some method ∧
    method.body = .bytecode address len ∧
    f.locals.size = max method.maxLocals.toNat method.args.toNat ∧
    f.pc ≤ len.toNat

/-- What the checks of a program establish. -/
structure Program.Valid (p : Program) : Prop where
  image : p.image.Checked p.config
  depth_pos : 0 < p.config.maxCallDepth

namespace Machine

variable {δ : Type} {p : Program} {o : Operation} {m m' : Machine δ}
variable {f : Frame} {callers : List Frame} {flow : Flow} {e : Fault}

/-! ## Effects -/

/-- The parts of a machine that never change. -/
structure Keeps (m m' : Machine δ) : Prop where
  program_eq : m'.program = m.program
  bridge_eq : m'.bridge = m.bridge
  statics_eq : m'.statics = m.statics

/-- The current call goes on. -/
structure Stays (p : Program) (o : Operation) (f : Frame)
    (callers : List Frame) (m m' : Machine δ) : Prop extends Keeps m m' where
  isReturn_eq : o.opcode.isReturn = false
  change : Store.Change p f.Holds (o.MayWrite m.statics) m.store m'.store
  frame : ∃ f', m'.frames = f' :: callers ∧ f'.method = f.method ∧
    f'.base = f.base ∧ f'.locals.size = f.locals.size ∧
    (f'.pc = f.pc ∨ o.Leads f'.pc) ∧
    ∀ v ∈ f'.locals, Store.Origin p f.Holds m.store m'.store.heap v

/-- A call of a method with code begins.  It takes its arguments off the
operand stack. -/
structure Calls (p : Program) (o : Operation) (m m' : Machine δ) : Prop
    extends Keeps m m' where
  isInvoke : o.opcode.isInvoke = true
  depth_lt : m.frames.length < p.config.maxCallDepth
  callee : ∃ index method args, p.image.methods[index]? = some method ∧
    method.isNative = false ∧ args.size = method.args.toNat ∧
    m.store.stack.values.toList =
      m'.store.stack.values.toList ++ args.toList ∧
    m'.frames = .enter index method.frameLocals args m'.store.stack.size ::
      m.frames
  floor_le : m.store.stack.floor ≤ m'.store.stack.size
  floor_eq : m'.store.stack.floor = m'.store.stack.size
  limit_eq : m'.store.stack.limit = m.store.stack.limit
  heap_eq : m'.store.heap = m.store.heap
  console_eq : m'.store.console = m.store.console

/-- The current call returns.  The residue is what it leaves on the operand
stack besides the returned value. -/
structure Returns (p : Program) (o : Operation) (callers : List Frame)
    (m : Machine δ) (flow : Flow) (m' : Machine δ) : Prop
    extends Keeps m m' where
  isReturn : o.opcode.isReturn = true
  frames_eq : m'.frames = callers
  returned : ∃ (value : Option Value) (residue : List Value),
    value.isSome = o.returnsValue ∧
    m.store.stack.operands = residue ++ value.toList ∧
    (p.config.residue = .verify → residue = []) ∧
    m'.store.stack.values.toList = m.store.stack.below ++
      (if p.config.residue = .retain then residue else []) ++
      (if callers = [] then [] else value.toList) ∧
    flow = if callers = [] then .finished value else .running
  floor_eq : m'.store.stack.floor = (callers.head?.map (·.base)).getD 0
  limit_eq : m'.store.stack.limit = m.store.stack.limit
  heap_eq : m'.store.heap = m.store.heap
  console_eq : m'.store.console = m.store.console

/-- What an operation does that does not stop at a fault. -/
inductive Effect (p : Program) (o : Operation) (f : Frame)
    (callers : List Frame) (m : Machine δ) : Flow → Machine δ → Prop where
  | stays {m' : Machine δ} : Stays p o f callers m m' →
      Effect p o f callers m .running m'
  | calls {m' : Machine δ} : Calls p o m m' →
      Effect p o f callers m .running m'
  | returns {flow : Flow} {m' : Machine δ} : Returns p o callers m flow m' →
      Effect p o f callers m flow m'

/-- The operation stops at a fault.  It has written nothing, and the calls
are the same. -/
structure Halts (p : Program) (o : Operation) (f : Frame) (m : Machine δ)
    (e : Fault) (m' : Machine δ) : Prop extends Keeps m m' where
  quiet : Store.Quiet p f.Holds m.store m'.store
  frames_eq : m'.frames = m.frames
  mayRaise : o.MayRaise p e

/-! ## Invariants -/

/-- What holds of a machine in runs and between them. -/
structure Founded (p : Program) (m : Machine δ) : Prop where
  program_eq : m.program = p
  valid : p.Valid
  standard : m.bridge.Standard
  sound : m.store.Sound p m.statics
  limit_eq : m.store.stack.limit = p.config.stackSize
  locals : ∀ f ∈ m.frames, ∀ v ∈ f.locals,
    v.Grounded p m.statics m.store.heap

/-- The bases of the frames, that of the current call first. -/
def bases (m : Machine δ) : List Nat := m.frames.map (·.base)

/-- What holds of a machine while a run is active. -/
structure Active (p : Program) (m : Machine δ) : Prop where
  depth_pos : 0 < m.depth
  depth_le : m.depth ≤ p.config.maxCallDepth
  first_base : m.bases.getLast? = some 0
  bases_sorted : m.bases.Pairwise (· ≥ ·)
  current_base : m.bases.head? = some m.store.stack.floor
  floor_le : m.store.stack.floor ≤ m.store.stack.size
  size_le : m.store.stack.size ≤ p.config.stackSize
  fits : ∀ f ∈ m.frames, f.Fits p.image

/-! ## Keeping the store sound -/

/-- The invariant holds again where the parts of a machine that can change
are as it says. -/
theorem Keeps.founded (hk : Keeps m m') (hm : m.Founded p)
    (hsound : m'.store.Sound p m.statics)
    (hlimit : m'.store.stack.limit = m.store.stack.limit)
    (hlocals : ∀ f ∈ m'.frames, ∀ v ∈ f.locals,
      v.Grounded p m.statics m'.store.heap) : m'.Founded p where
  program_eq := hk.program_eq.trans hm.program_eq
  valid := hm.valid
  standard := by
    rw [hk.bridge_eq]
    exact hm.standard
  sound := by
    rw [hk.statics_eq]
    exact hsound
  limit_eq := hlimit.trans hm.limit_eq
  locals := by
    rw [hk.statics_eq]
    exact hlocals

/-- The locals of the current call are grounded. -/
theorem Founded.holds (hm : m.Founded p) (hframes : m.frames = f :: callers)
    (v : Value) (hv : f.Holds v) : v.Grounded p m.statics m.store.heap :=
  hm.locals f (by rw [hframes]; exact List.mem_cons_self) v hv

theorem Founded.size_le (hm : m.Founded p) :
    m.store.stack.size ≤ p.config.stackSize := by
  rw [← hm.limit_eq]
  exact hm.sound.bounded.size_le

theorem Stays.founded (h : Stays p o f callers m m') (hm : m.Founded p)
    (hframes : m.frames = f :: callers) : m'.Founded p := by
  have hholds := hm.holds hframes
  apply h.toKeeps.founded hm
  · exact h.change.sound hm.sound hholds
  · exact h.change.stack.limit_eq
  · obtain ⟨f', hframes', -, -, -, -, horigin⟩ := h.frame
    rw [hframes']
    intro g hg v hv
    rcases List.mem_cons.1 hg with rfl | hg
    · exact (horigin v hv).grounded hm.sound hholds h.change
    · have hold := hm.locals g (by rw [hframes]; exact List.mem_cons_of_mem _ hg)
      exact (hold v hv).mono h.change.objects_le

theorem Calls.founded (h : Calls p o m m') (hm : m.Founded p) :
    m'.Founded p := by
  obtain ⟨index, method, args, -, -, -, hvalues, hframes⟩ := h.callee
  have hsize : m'.store.stack.size ≤ m'.store.stack.limit := by
    have hlen := congrArg List.length hvalues
    have hle := hm.sound.bounded.size_le
    rw [h.limit_eq]
    unfold Stack.size at hle ⊢
    rw [List.length_append, Array.length_toList, Array.length_toList] at hlen
    omega
  apply h.toKeeps.founded hm
  · apply hm.sound.setStack h.heap_eq
    · exact ⟨Nat.le_of_eq h.floor_eq, hsize⟩
    · intro v hv
      rw [← Array.mem_toList_iff] at hv ⊢
      rw [hvalues]
      exact List.mem_append_left _ hv
  · exact h.limit_eq
  · rw [hframes, h.heap_eq]
    intro g hg v hv
    rcases List.mem_cons.1 hg with rfl | hg
    · rcases Array.mem_append.1 hv with harg | hnull
      · apply hm.sound.values
        rw [← Array.mem_toList_iff, hvalues]
        exact List.mem_append_right _ (Array.mem_toList_iff.2 harg)
      · rw [(Array.mem_replicate.1 hnull).2]
        trivial
    · exact hm.locals g hg v hv

/-- What is on the stack after a return was there before it. -/
theorem Returns.values_sublist (h : Returns p o callers m flow m') :
    m'.store.stack.values.toList.Sublist m.store.stack.values.toList := by
  obtain ⟨value, residue, -, hoperands, -, hvalues, -⟩ := h.returned
  rw [hvalues, ← Stack.below_append_operands, hoperands, List.append_assoc]
  apply List.Sublist.append (List.Sublist.refl _)
  apply List.Sublist.append
  · split
    · exact List.Sublist.refl _
    · exact List.nil_sublist _
  · split
    · exact List.nil_sublist _
    · exact List.Sublist.refl _

theorem Returns.founded (h : Returns p o callers m flow m')
    (hm : m.Founded p) (hframes : m.frames = f :: callers)
    (hfloor : m'.store.stack.floor ≤ m.store.stack.floor) :
    m'.Founded p := by
  have hsub := h.values_sublist
  have hsize : m'.store.stack.size ≤ m'.store.stack.limit := by
    have hle := hm.sound.bounded.size_le
    have hlen := hsub.length_le
    rw [h.limit_eq]
    exact Nat.le_trans hlen hle
  apply h.toKeeps.founded hm
  · apply hm.sound.setStack h.heap_eq
    · refine ⟨?_, hsize⟩
      obtain ⟨value, residue, -, -, -, hvalues, -⟩ := h.returned
      have hlen := congrArg List.length hvalues
      rw [List.length_append, List.length_append,
        hm.sound.bounded.length_below, Array.length_toList] at hlen
      unfold Stack.size
      omega
    · intro v hv
      rw [← Array.mem_toList_iff] at hv ⊢
      exact hsub.subset hv
  · exact h.limit_eq
  · rw [h.frames_eq, h.heap_eq]
    intro g hg
    exact hm.locals g (by rw [hframes]; exact List.mem_cons_of_mem _ hg)

theorem Halts.founded (h : Halts p o f m e m') (hm : m.Founded p)
    (hframes : m.frames = f :: callers) : m'.Founded p := by
  have hholds := hm.holds hframes
  apply h.toKeeps.founded hm
  · exact h.quiet.toChange.sound hm.sound hholds
  · exact h.quiet.stack.limit_eq
  · rw [h.frames_eq]
    intro g hg v hv
    exact (hm.locals g hg v hv).mono h.quiet.objects_le

/-! ## Keeping the frames in order -/

theorem bases_of_frames {frames : List Frame} (h : m.frames = f :: frames) :
    m.bases = f.base :: frames.map (·.base) := by
  unfold bases
  rw [h]
  rfl

/-- No base is above that of the current call. -/
theorem Active.base_le_floor (ha : m.Active p) {b : Nat}
    (hb : b ∈ m.bases) : b ≤ m.store.stack.floor := by
  have hhead := ha.current_base
  have hsorted := ha.bases_sorted
  cases hbases : m.bases with
  | nil =>
    rw [hbases] at hb
    cases hb
  | cons first rest =>
    rw [hbases] at hb hhead hsorted
    cases hhead
    rcases List.mem_cons.1 hb with rfl | hrest
    · exact Nat.le_refl _
    · exact (List.pairwise_cons.1 hsorted).1 b hrest

/-- The frames stay in order if their bases stay the same. -/
theorem Active.of_bases (ha : m.Active p) (hm' : m'.Founded p)
    (hbases : m'.bases = m.bases)
    (hfloor : m'.store.stack.floor = m.store.stack.floor)
    (hfits : ∀ f ∈ m'.frames, f.Fits p.image) : m'.Active p := by
  have hdepth : m'.depth = m.depth := by
    have hlen := congrArg List.length hbases
    simpa [bases, depth] using hlen
  exact {
    depth_pos := by rw [hdepth]; exact ha.depth_pos
    depth_le := by rw [hdepth]; exact ha.depth_le
    first_base := by rw [hbases]; exact ha.first_base
    bases_sorted := by rw [hbases]; exact ha.bases_sorted
    current_base := by rw [hbases, hfloor]; exact ha.current_base
    floor_le := hm'.sound.bounded.floor_le
    size_le := hm'.size_le
    fits := hfits }

theorem Stays.active (h : Stays p o f callers m m') (ha : m.Active p)
    (hm' : m'.Founded p) (hframes : m.frames = f :: callers)
    (hleads : ∀ t, o.Leads t → Frame.Fits p.image { f with pc := t }) :
    m'.Active p := by
  obtain ⟨f', hframes', hmethod, hbase, hlocals, hpc, -⟩ := h.frame
  apply ha.of_bases hm'
  · rw [bases_of_frames hframes', bases_of_frames hframes, hbase]
  · exact h.change.stack.floor_eq
  · rw [hframes']
    intro g hg
    have hold : ∀ g ∈ f :: callers, g.Fits p.image := by
      rw [← hframes]
      exact ha.fits
    rcases List.mem_cons.1 hg with rfl | hg
    · have hfits : Frame.Fits p.image { f with pc := g.pc } := by
        rcases hpc with hpc | hpc
        · rw [hpc]
          exact hold f List.mem_cons_self
        · exact hleads _ hpc
      unfold Frame.Fits at hfits ⊢
      rw [hmethod, hlocals]
      exact hfits
    · exact hold g (List.mem_cons_of_mem _ hg)

/-- A frame that begins a call fits. -/
theorem fits_enter {index base : Nat} {method : MethodDescriptor}
    {args : Array Value} (hmethod : p.image.methods[index]? = some method)
    (hcode : method.isNative = false) (hargs : args.size ≤ method.args.toNat) :
    (Frame.enter index method.frameLocals args base).Fits p.image := by
  cases hbody : method.body with
  | native =>
    rw [MethodDescriptor.isNative, hbody] at hcode
    cases hcode
  | bytecode address len =>
    refine ⟨method, address, len, hmethod, hbody, ?_, Nat.zero_le _⟩
    have hcount : method.frameLocals =
        max method.maxLocals.toNat method.args.toNat := rfl
    simp only [Frame.enter, Array.size_append, Array.size_replicate]
    omega

theorem Calls.active (h : Calls p o m m') (ha : m.Active p)
    (hm' : m'.Founded p) : m'.Active p := by
  obtain ⟨index, method, args, hmethod, hcode, hargs, -, hframes⟩ := h.callee
  have hbases : m'.bases = m'.store.stack.size :: m.bases :=
    bases_of_frames hframes
  have hdepth : m'.depth = m.depth + 1 := by
    unfold depth
    rw [hframes]
    rfl
  constructor
  · omega
  · have hlt := h.depth_lt
    unfold depth at hdepth
    unfold depth
    omega
  · have hfirst := ha.first_base
    rw [hbases, List.getLast?_cons, hfirst]
    rfl
  · rw [hbases, List.pairwise_cons]
    refine ⟨?_, ha.bases_sorted⟩
    intro b hb
    exact Nat.le_trans (ha.base_le_floor hb) h.floor_le
  · rw [hbases, h.floor_eq]
    rfl
  · exact hm'.sound.bounded.floor_le
  · exact hm'.size_le
  · rw [hframes]
    intro g hg
    rcases List.mem_cons.1 hg with rfl | hg
    · exact fits_enter hmethod hcode (Nat.le_of_eq hargs)
    · exact ha.fits g hg

/-- A return lowers the floor to the base of the caller. -/
theorem Returns.floor_le (h : Returns p o callers m flow m')
    (ha : m.Active p) (hframes : m.frames = f :: callers) :
    m'.store.stack.floor ≤ m.store.stack.floor := by
  rw [h.floor_eq]
  cases callers with
  | nil => exact Nat.zero_le _
  | cons caller rest =>
    apply ha.base_le_floor
    rw [bases_of_frames hframes]
    exact List.mem_cons_of_mem _ List.mem_cons_self

theorem Returns.active (h : Returns p o callers m flow m')
    (ha : m.Active p) (hm' : m'.Founded p) (hframes : m.frames = f :: callers)
    (hcallers : callers ≠ []) : m'.Active p := by
  cases callers with
  | nil => exact absurd rfl hcallers
  | cons caller rest =>
    have hbases : m.bases = f.base :: m'.bases := by
      rw [bases_of_frames hframes, bases, h.frames_eq]
    have hdepth : m.depth = m'.depth + 1 := by
      unfold depth
      rw [hframes, h.frames_eq]
      rfl
    have hle := ha.depth_le
    have hfirst := ha.first_base
    have hsorted := ha.bases_sorted
    rw [hbases] at hfirst hsorted
    constructor
    · unfold depth
      rw [h.frames_eq]
      exact Nat.zero_lt_succ _
    · omega
    · rw [bases_of_frames h.frames_eq] at hfirst ⊢
      rw [List.getLast?_cons_cons] at hfirst
      exact hfirst
    · exact (List.pairwise_cons.1 hsorted).2
    · rw [bases_of_frames h.frames_eq, h.floor_eq]
      rfl
    · exact hm'.sound.bounded.floor_le
    · exact hm'.size_le
    · rw [h.frames_eq]
      intro g hg
      exact ha.fits g (by rw [hframes]; exact List.mem_cons_of_mem _ hg)

theorem Halts.active (h : Halts p o f m e m') (ha : m.Active p)
    (hm' : m'.Founded p) : m'.Active p := by
  apply ha.of_bases hm'
  · rw [bases, bases, h.frames_eq]
  · exact h.quiet.stack.floor_eq
  · rw [h.frames_eq]
    exact ha.fits

end Machine

end SlotVm
