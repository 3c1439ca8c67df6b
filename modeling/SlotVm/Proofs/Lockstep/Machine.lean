import SlotVm.Machine.Run
import SlotVm.Proofs.Lockstep.Native

/-!
# Machines side by side

`Variation.Machines` relates two machines that run the programs of a
variation: their stores are related, and all else is the same.  `InStep` says
that two actions keep such machines together, with the same result or the
same fault.

There are two groups of lemmas.

* One rule for each way to build an action.  A program or a machine that is
  looked at differs on the two sides (`InStep.getProgram`, `InStep.get`).
* Calls and returns, one statement for each function.

The current call has its base, and so the floor, above the values out of
reach; a return may leave the floor below them.  The number `k` in
`v.Machines k` says how low the floor may be.  An operation starts from
`v.height`, the number of values out of reach, and leaves machines with `0`,
of which nothing is known.
-/

namespace SlotVm.Variation

open SlotVm.Action Machine

variable {δ α β : Type} {v : Variation} {i j k : Nat}

/-- The machines run the two programs of the variation, and differ in the
values out of reach and in their limits at most. -/
structure Machines (v : Variation) (k : Nat) (m m' : Machine δ) : Prop where
  program_eq : m.program = v.program
  program_eq' : m'.program = v.program'
  bridge_eq : m'.bridge = m.bridge
  standard : m.bridge.Standard
  store : v.Stores k m.store m'.store
  frames_eq : m'.frames = m.frames
  base_le : ∀ f ∈ m.frames.head?, k ≤ f.base
  statics_eq : m'.statics = m.statics
  steps_eq : m'.steps = m.steps

/-- The actions keep two machines together. -/
def InStep (v : Variation) (δ : Type) (k j : Nat)
    (a a' : Action (Machine δ) α) : Prop :=
  Mirrors (v.Machines k) (v.Machines j) (v.Machines 0) v.Excuses a a'

/-! ## Relations -/

theorem Stacks.raise {s s' : Stack} (h : v.Stacks k s s')
    (hfloor : j ≤ s.floor) : v.Stacks j s s' :=
  ⟨h.values, h.floor_eq, hfloor, h.limit_le, h.limit_eq⟩

namespace Machines

variable {m m' : Machine δ}

/-- Another number that the floor and the base of the current call are not
below. -/
theorem raise (h : v.Machines k m m') (hfloor : j ≤ m.store.stack.floor)
    (hbase : ∀ f ∈ m.frames.head?, j ≤ f.base) : v.Machines j m m' where
  program_eq := h.program_eq
  program_eq' := h.program_eq'
  bridge_eq := h.bridge_eq
  standard := h.standard
  store := h.store.setStack (h.store.stack.raise hfloor)
  frames_eq := h.frames_eq
  base_le := hbase
  statics_eq := h.statics_eq
  steps_eq := h.steps_eq

/-- Nothing is said about the floor any more. -/
theorem weaken (h : v.Machines k m m') : v.Machines 0 m m' :=
  h.raise (Nat.zero_le _) fun _ _ => Nat.zero_le _

theorem frame_eq (h : v.Machines k m m') : m'.frame = m.frame := by
  unfold Machine.frame
  rw [h.frames_eq]

theorem depth_eq (h : v.Machines k m m') : m'.depth = m.depth := by
  unfold depth
  rw [h.frames_eq]

theorem image_eq (h : v.Machines k m m') :
    m'.program.image = m.program.image := by
  rw [h.program_eq, h.program_eq']
  rfl

theorem config_eq (h : v.Machines k m m') : m.program.config = v.config := by
  rw [h.program_eq]
  rfl

theorem config_eq' (h : v.Machines k m m') :
    m'.program.config = v.config' := by
  rw [h.program_eq']
  rfl

theorem size_eq (h : v.Machines k m m') :
    m'.store.stack.size = m.store.stack.size :=
  h.store.stack.size_eq

/-- Other stores on both sides. -/
theorem setStore (h : v.Machines k m m') {s s' : Store δ}
    (hs : v.Stores k s s') :
    v.Machines k { m with store := s } { m' with store := s' } :=
  ⟨h.program_eq, h.program_eq', h.bridge_eq, h.standard, hs, h.frames_eq,
    h.base_le, h.statics_eq, h.steps_eq⟩

/-- Other frames on both sides, with the stack that goes with them. -/
theorem setFrames (h : v.Machines k m m') {frames : List Frame}
    {stack stack' : Stack} (hbase : ∀ f ∈ frames.head?, j ≤ f.base)
    (hstack : v.Stacks j stack stack') :
    v.Machines j { m with frames, store := { m.store with stack } }
      { m' with frames, store := { m'.store with stack := stack' } } where
  program_eq := h.program_eq
  program_eq' := h.program_eq'
  bridge_eq := h.bridge_eq
  standard := h.standard
  store := h.store.setStack hstack
  frames_eq := rfl
  base_le := hbase
  statics_eq := h.statics_eq
  steps_eq := h.steps_eq

end Machines

namespace InStep

variable {a a' : Action (Machine δ) α} {f f' : α → Action (Machine δ) β}

/-! ## Building actions -/

/-- The rule for a result without an action. -/
protected theorem pure (x : α) :
    v.InStep δ k k (Pure.pure x) (Pure.pure x) :=
  Mirrors.pure x

/-- The rule for one action after another. -/
protected theorem bind (h : v.InStep δ k j a a')
    (hf : ∀ x, v.InStep δ j i (f x) (f' x)) :
    v.InStep δ k i (a >>= f) (a' >>= f') :=
  Mirrors.bind h hf

/-- The rule for a result that does not depend on the machine. -/
protected theorem lift (r : Except Fault α) :
    v.InStep δ k k (Action.lift r) (Action.lift r) :=
  Mirrors.lift r fun _ _ hm => hm.weaken

/-- The floor may be lower than it is. -/
theorem weaken (h : v.InStep δ k j a a') : v.InStep δ k 0 a a' :=
  h.mono (fun _ _ hm => hm.weaken) fun _ _ hm => hm

/-- The rule for looking at the program. -/
protected theorem getProgram {f f' : Program → Action (Machine δ) β}
    (hf : v.InStep δ k j (f v.program) (f' v.program')) :
    v.InStep δ k j (getProgram >>= f) (getProgram >>= f') := by
  intro m m' hm
  refine Follows.bind_ok rfl rfl ?_
  rw [hm.program_eq, hm.program_eq']
  exact hf m m' hm

/-- The rule for looking at the machine. -/
protected theorem get {f f' : Machine δ → Action (Machine δ) β}
    (hf : ∀ m m', v.Machines k m m' →
      v.InStep δ k j (f m) (f' m')) :
    v.InStep δ k j (get >>= f) (get >>= f') :=
  fun m m' hm => Follows.bind_ok rfl rfl (hf m m' hm m m' hm)

/-- The rule for an action on the store. -/
protected theorem onStore {a a' : Action (Store δ) α}
    (h : v.Uniform δ k a a') : v.InStep δ k k (onStore a) (onStore a') := by
  intro m m' hm
  have hstore := h m.store m'.store hm.store
  unfold Follows Ends
  simp only [Machine.onStore]
  cases ha : a m.store with
  | ok x t =>
    obtain ⟨t', ha', ht⟩ := hstore.of_ok ha
    simp only [ha']
    exact ⟨_, rfl, hm.setStore ht⟩
  | error e t =>
    rcases Ends.of_error hstore ha with he | ⟨t', ha', ht⟩
    · exact .inl he
    · simp only [ha']
      exact .inr ⟨_, rfl, (hm.setStore ht).weaken⟩

/-- Both sides record the same message. -/
theorem record (level : Level) (target : String) (text : Unit → String) :
    v.InStep δ k k (Machine.record level target text)
      (Machine.record level target text) :=
  InStep.onStore (Uniform.record level target text)

/-- The rule for looking at the current call. -/
protected theorem frame {f f' : Frame → Action (Machine δ) β}
    (hf : ∀ g : Frame, k ≤ g.base → v.InStep δ k j (f g) (f' g)) :
    v.InStep δ k j (Action.read Machine.frame >>= f)
      (Action.read Machine.frame >>= f') := by
  intro m m' hm
  have hframe := hm.frame_eq
  have hbase := hm.base_le
  cases hframes : m.frames with
  | nil =>
    have hnone : m.frame = .error (.invalidImage .noActiveFrame) := by
      unfold Machine.frame
      rw [hframes]
    have hstop : Follows (Action.read Machine.frame)
        (Action.read Machine.frame) m m' (fun _ _ => False) (v.Machines 0)
        v.Excuses :=
      .intro_error (lift_of_error hnone)
        (lift_of_error (hframe.trans hnone)) hm.weaken
    exact hstop.bind fun _ _ _ hfalse => hfalse.elim
  | cons g callers =>
    have hsome : m.frame = .ok g := by
      unfold Machine.frame
      rw [hframes]
    refine Follows.bind_ok (lift_of_ok hsome)
      (lift_of_ok (hframe.trans hsome)) ?_
    exact hf g (hbase g (by rw [hframes]; rfl)) m m' hm

/-- The rule for a change of the current call, which keeps its base. -/
theorem updateFrame {g : Frame → Except Fault Frame}
    (hg : ∀ f f', g f = .ok f' → f'.base = f.base) :
    v.InStep δ k k (Machine.updateFrame g) (Machine.updateFrame g) := by
  intro m m' hm
  have hbase := hm.base_le
  unfold Follows Ends Machine.updateFrame
  rw [hm.frames_eq]
  cases hframes : m.frames with
  | nil => exact .inr ⟨m', rfl, hm.weaken⟩
  | cons current callers =>
    simp only
    cases hnext : g current with
    | error e => exact .inr ⟨m', rfl, hm.weaken⟩
    | ok next =>
      refine ⟨_, rfl, hm.setFrames ?_ hm.store.stack⟩
      intro f hf
      obtain rfl := Option.some.inj hf
      rw [hg current next hnext]
      exact hbase current (by rw [hframes]; rfl)

/-- The rule for an instruction after which the run goes on. -/
theorem proceed {a a' : Action (Machine δ) Unit} (h : v.InStep δ k j a a') :
    v.InStep δ k j (Machine.proceed a) (Machine.proceed a') :=
  h.bind fun _ =>
  InStep.pure _

/-! ## Calls -/

theorem enter (f : Frame) :
    v.InStep δ k 0 (Machine.enter f) (Machine.enter f) := by
  intro m m' hm
  have hle := v.relaxes.maxCallDepth_le
  unfold Follows Ends Machine.enter
  rw [hm.frames_eq, hm.config_eq, hm.config_eq']
  by_cases hdepth : m.frames.length < v.config.maxCallDepth
  · have hdepth' : m.frames.length < v.config'.maxCallDepth := by omega
    simp only [if_pos hdepth, if_pos hdepth']
    refine ⟨_, rfl, hm.setFrames (fun _ _ => Nat.zero_le _) ?_⟩
    exact hm.store.stack.setFloor (Nat.zero_le _)
  · simp only [if_neg hdepth]
    by_cases heq : v.config'.maxCallDepth = v.config.maxCallDepth
    · rw [heq]
      simp only [if_neg hdepth]
      exact .inr ⟨m', rfl, hm.weaken⟩
    · exact .inl heq

theorem callNative (r : MethodRef) :
    v.InStep δ v.height v.height (Machine.callNative r)
      (Machine.callNative r) := by
  apply InStep.get
  intro m m' hm
  rw [hm.bridge_eq, hm.image_eq]
  exact InStep.onStore (Uniform.invokeBridge hm.standard _ r)

theorem traceCall (r : MethodRef) :
    v.InStep δ k k (Machine.traceCall r) (Machine.traceCall r) := by
  have htrace : v.program'.config.trace = v.program.config.trace :=
    v.relaxes.trace_eq
  apply InStep.getProgram
  rw [htrace]
  by_cases hon : v.program.config.trace = true
  · simp only [if_pos hon]
    apply InStep.get
    intro m m' hm
    rw [hm.depth_eq]
    exact record _ _ _
  · simp only [if_neg hon]
    exact InStep.pure _

theorem call (found : Resolved) :
    v.InStep δ v.height 0 (Machine.call found)
      (Machine.call found) := by
  cases found with
  | native r => exact (callNative r).weaken
  | method index =>
    apply InStep.getProgram
    refine (InStep.lift (v.image.method index)).bind fun method => ?_
    by_cases hcode : method.isNative = true
    · simp only [if_pos hcode]
      exact (callNative method.ref).weaken
    · simp only [if_neg hcode]
      refine (InStep.onStore (Uniform.popN method.args.toNat)).bind
        fun args => ?_
      refine (traceCall method.ref).bind fun _ => ?_
      apply InStep.get
      intro m m' hm
      rw [hm.size_eq]
      exact enter _

theorem invoke (kind : InvokeKind) (raw : UInt16) :
    v.InStep δ v.height 0 (Machine.invoke kind raw)
      (Machine.invoke kind raw) := by
  have hnative : v.program'.config.native = v.program.config.native :=
    v.relaxes.native_eq
  have hinherit : v.program'.config.features.inheritance =
      v.program.config.features.inheritance := v.relaxes.inheritance_eq
  have himage : v.program'.image = v.program.image := rfl
  apply InStep.getProgram
  simp only [hnative, hinherit, himage]
  split
  · exact (callNative _).weaken
  · refine (InStep.lift _).bind fun found => ?_
    split
    · exact (InStep.onStore (Uniform.dispatch _ found)).bind call
    · exact call found

/-! ## Returns -/

/-- A residue under `verify` is an excused fault if the second machine does
not verify. -/
theorem settle (f : Frame) (hf : v.height ≤ f.base) :
    v.InStep δ v.height v.height (Machine.settle f)
      (Machine.settle f) := by
  intro m m' hm
  unfold Follows Ends Machine.settle
  simp only [hm.size_eq, hm.image_eq, hm.config_eq, hm.config_eq']
  by_cases hunder : m.store.stack.size < f.base
  · simp only [if_pos hunder]
    exact .inr ⟨m', rfl, hm.weaken⟩
  · simp only [if_neg hunder]
    by_cases hnone : m.store.stack.size - f.base = 0
    · simp only [if_pos hnone]
      exact ⟨m', rfl, hm⟩
    · simp only [if_neg hnone]
      by_cases heq : v.config'.residue = v.config.residue
      · rw [heq]
        cases v.config.residue with
        | verify =>
          cases m.program.image.method f.method with
          | ok method => exact .inr ⟨m', rfl, hm.weaken⟩
          | error e => exact .inr ⟨m', rfl, hm.weaken⟩
        | discard =>
          have hstack := hm.store.stack.truncate hf hf
          exact ⟨_, rfl, hm.setStore (hm.store.setStack hstack)⟩
        | retain => exact ⟨m', rfl, hm⟩
      · rw [v.relaxes.residue_le.resolve_right heq]
        simp only [Image.method]
        cases m.program.image.methods[f.method]? with
        | some method => exact .inl heq
        | none => exact .inl heq

theorem leave : v.InStep δ k 0 Machine.leave Machine.leave := by
  apply Mirrors.modify
  intro m m' hm
  rw [hm.frames_eq]
  refine hm.setFrames (fun _ _ => Nat.zero_le _) ?_
  exact hm.store.stack.setFloor (Nat.zero_le _)

theorem returnFrom (value : Option Value) :
    v.InStep δ v.height 0 (Machine.returnFrom value)
      (Machine.returnFrom value) := by
  apply InStep.frame
  intro f hf
  refine (settle f hf).bind fun _ => ?_
  refine leave.bind fun _ => ?_
  apply InStep.get
  intro m m' hm
  rw [hm.frames_eq]
  by_cases hlast : m.frames.isEmpty = true
  · simp only [if_pos hlast]
    exact InStep.pure _
  · simp only [if_neg hlast]
    cases value with
    | none => exact InStep.pure _
    | some x =>
      exact (InStep.onStore (Uniform.push x)).bind fun _ =>
        InStep.pure _

end InStep

end SlotVm.Variation
