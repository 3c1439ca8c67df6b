import SlotVm.Proofs.Lockstep.Machine
import SlotVm.Proofs.Machine.Execute

/-!
# Steps and runs side by side

`InStep.step` is the statement about a step: two machines of a variation
fetch the same instruction, and its operation ends in the same way on both.
A feature that only the second machine has is an excused fault of the first.

A run needs more than a step, because the next step starts from machines
whose values out of reach are below the floor.  If there are no such values,
nothing is asked for, and `InStep.runMain` follows by induction on the number
of instructions.  Otherwise the invariants of a run say where the floor is.
-/

namespace SlotVm.Variation

open SlotVm.Action Machine

variable {δ α : Type} {v : Variation} {k : Nat} {m m' : Machine δ}

namespace InStep

/-! ## The operand shapes -/

theorem jump (position : Nat) :
    v.InStep δ k k (Machine.jump position) (Machine.jump position) := by
  apply updateFrame
  intro f f' hf
  cases hf
  rfl

theorem jumpIf (taken : Bool) (position : Nat) :
    v.InStep δ k k (Machine.jumpIf taken position)
      (Machine.jumpIf taken position) := by
  cases taken with
  | true => exact jump position
  | false => exact InStep.pure _

theorem loadLocal (index : Nat) :
    v.InStep δ k k (Machine.loadLocal index)
      (Machine.loadLocal index) := by
  apply InStep.frame
  intro f _
  refine (InStep.lift (f.getLocal index)).bind fun x => ?_
  exact InStep.onStore (Uniform.push x)

theorem storeLocal (index : Nat) :
    v.InStep δ v.height v.height (Machine.storeLocal index)
      (Machine.storeLocal index) := by
  refine (InStep.onStore Uniform.pop).bind fun x => ?_
  apply updateFrame
  exact fun f f' hf => (Frame.setLocal_ok hf).2.1

theorem incrementLocal (w : Width) (index : Nat) (delta : Int32) :
    v.InStep δ k k (Machine.incrementLocal w index delta)
      (Machine.incrementLocal w index delta) := by
  apply updateFrame
  intro f f' hf
  obtain ⟨n, hset⟩ := Frame.increment_ok hf
  exact (Frame.setLocal_ok hset).2.1

theorem executePlain (w : Width) (op : PlainOp) :
    v.InStep δ v.height 0 (Machine.executePlain w op)
      (Machine.executePlain w op) := by
  cases op with
  | load tag slot => exact (proceed (loadLocal slot.val)).weaken
  | store tag slot => exact (proceed (storeLocal slot.val)).weaken
  | returnValue tag =>
    exact (InStep.onStore Uniform.pop).bind fun x => returnFrom (some x)
  | returnVoid => exact returnFrom none
  | _ => exact (proceed (InStep.onStore (Uniform.executeData w _))).weaken

theorem executeByte (op : ByteOp) (operand : UInt8) :
    v.InStep δ v.height v.height
      (Machine.executeByte v.program op operand)
      (Machine.executeByte v.program' op operand) := by
  cases op with
  | loadConstant => exact InStep.onStore (Uniform.loadConstant operand)
  | load tag => exact loadLocal operand.toNat
  | store tag => exact storeLocal operand.toNat
  | newArray => exact InStep.onStore (Uniform.newArrayOf operand)

theorem executeIndex (op : IndexOp) (operand : UInt16) :
    v.InStep δ v.height 0
      (Machine.executeIndex v.program op operand)
      (Machine.executeIndex v.program' op operand) := by
  cases op with
  | getStatic =>
    apply InStep.get
    intro m m' hm
    rw [hm.statics_eq]
    exact (InStep.onStore (Uniform.pushSlot _ _)).weaken
  | putStatic =>
    apply InStep.get
    intro m m' hm
    rw [hm.statics_eq]
    exact (InStep.onStore (Uniform.popIntoSlot _ _)).weaken
  | getField => exact (InStep.onStore (Uniform.getField _)).weaken
  | putField => exact (InStep.onStore (Uniform.putField _)).weaken
  | invoke kind => exact invoke kind operand
  | new => exact (InStep.onStore (Uniform.newObject operand)).weaken
  | newRefArray =>
    exact (InStep.onStore (Uniform.newArray .reference)).weaken

/-- A key is taken off the stack and decides where to go on. -/
theorem switch (op : String) (target : Int32 → Nat) :
    v.InStep δ v.height v.height
      (do let key ← onStore (Store.popInt op); Machine.jump (target key))
      (do let key ← onStore (Store.popInt op); Machine.jump (target key)) :=
  (InStep.onStore (Uniform.popInt op)).bind fun key =>
  jump (target key)

theorem branch (op : BranchOp) (target : Nat) :
    v.InStep δ v.height v.height
      (do let taken ← onStore (branchTaken op); Machine.jumpIf taken target)
      (do let taken ← onStore (branchTaken op); Machine.jumpIf taken target) :=
  (InStep.onStore (Uniform.branchTaken op)).bind fun taken =>
  jumpIf taken target

theorem execute (o : Operation) :
    v.InStep δ v.height 0 (Machine.execute o) (Machine.execute o) := by
  have hword : v.program'.config.word = v.program.config.word :=
    v.relaxes.word_eq
  apply InStep.getProgram
  simp only [hword]
  cases o with
  | plain op => exact executePlain _ op
  | immediate op n =>
    exact (proceed (InStep.onStore (Uniform.pushInt _ n))).weaken
  | byteOperand op operand => exact (proceed (executeByte op operand)).weaken
  | index op operand => exact proceed (executeIndex op operand)
  | branch op target =>
    exact (proceed (branch op target)).weaken
  | increment slot delta => exact (proceed (incrementLocal _ _ _)).weaken
  | tableSwitch fallback low targets =>
    exact (proceed (switch _ (tableTarget fallback low targets))).weaken
  | lookupSwitch fallback pairs =>
    exact (proceed (switch _ (lookupTarget fallback pairs))).weaken

end InStep

/-! ## Steps -/

/-- The second program has the code of the first. -/
theorem codeOf_eq (v : Variation) (index : Nat) :
    v.program'.codeOf index = v.program.codeOf index := by
  unfold Program.codeOf program program' Program.load
  simp only [v.relaxes.storageFlag_eq]

/-- The second machine has the features of the first. -/
theorem isEnabled_of_relaxes {feature : Feature}
    (h : feature.isEnabled v.config.features = true) :
    feature.isEnabled v.config'.features = true := by
  cases feature with
  | arrays => exact v.relaxes.arrays_le h
  | switch => exact v.relaxes.switch_le h
  | float => exact v.relaxes.float_le h

/-- Both machines fetch the same instruction. -/
theorem Machines.fetch (hm : v.Machines k m m') :
    Gives m.fetch (fun i => m'.fetch = .ok i)
      (fun e => v.Excuses e ∨ m'.fetch = .error e) := by
  unfold Machine.fetch
  simp only [hm.frame_eq, hm.program_eq, hm.program_eq', codeOf_eq, bind,
    Except.bind]
  cases m.frame with
  | error e => exact .inr rfl
  | ok f =>
    simp only
    cases v.program.codeOf f.method with
    | error e => exact .inr rfl
    | ok code =>
      simp only
      cases Instruction.decode code f.pc with
      | error e => exact .inr rfl
      | ok i =>
        simp only
        cases i.operation.opcode.feature? with
        | none => exact rfl
        | some feature =>
          have hconfig : v.program.config = v.config := rfl
          have hconfig' : v.program'.config = v.config' := rfl
          simp only [hconfig, hconfig']
          by_cases hon : feature.isEnabled v.config.features = true
          · have hon' := isEnabled_of_relaxes hon
            simp only [if_pos hon, if_pos hon']
            exact rfl
          · simp only [if_neg hon]
            by_cases heq : v.config'.features = v.config.features
            · rw [heq]
              simp only [if_neg hon]
              exact .inr rfl
            · exact .inl heq

namespace InStep

/-- The reference of the current method. -/
theorem currentMethod :
    v.InStep δ k k (Action.read Machine.currentMethod)
      (Action.read Machine.currentMethod) := by
  apply Mirrors.read ?_ fun _ _ hm => hm.weaken
  intro m m' hm
  unfold Machine.currentMethod
  rw [hm.frame_eq, hm.image_eq]

theorem traceStep (i : Instruction) :
    v.InStep δ k k (Machine.traceStep i) (Machine.traceStep i) := by
  have htrace : v.program'.config.trace = v.program.config.trace :=
    v.relaxes.trace_eq
  apply InStep.getProgram
  rw [htrace]
  by_cases hon : v.program.config.trace = true
  · simp only [if_pos hon]
    refine Mirrors.bind currentMethod fun r => ?_
    apply InStep.get
    intro m m' hm
    rw [hm.size_eq]
    exact record _ _ _
  · simp only [if_neg hon]
    exact InStep.pure _

theorem advance (i : Instruction) :
    v.InStep δ k k (Machine.advance i) (Machine.advance i) := by
  refine Mirrors.bind ?_ fun _ => jump i.next
  apply Mirrors.modify
  intro m m' hm
  refine ⟨hm.program_eq, hm.program_eq', hm.bridge_eq, hm.standard, hm.store,
    hm.frames_eq, hm.base_le, hm.statics_eq, ?_⟩
  simp only [hm.steps_eq]

/-- Both machines make the same step. -/
theorem step : v.InStep δ v.height 0 Machine.step Machine.step := by
  have hfetch : v.InStep δ v.height v.height
      (Action.read Machine.fetch) (Action.read Machine.fetch) :=
    fun m m' hm => Follows.read hm.fetch hm hm.weaken
  exact hfetch.bind fun i =>
    (traceStep i).bind fun _ =>
    (advance i).bind fun _ =>
    execute i.operation

/-! ## Runs without values out of reach -/

theorem runSteps (hv : v.height = 0) (fuel : Nat) :
    v.InStep δ 0 0 (Machine.runSteps fuel)
      (Machine.runSteps fuel) := by
  induction fuel with
  | zero => exact InStep.pure _
  | succ fuel ih =>
    have hstep : v.InStep δ v.height 0 Machine.step Machine.step := step
    rw [hv] at hstep
    refine hstep.bind fun flow => ?_
    cases flow with
    | running => exact ih
    | finished value => exact InStep.pure _

/-- Both programs begin a run with the same method. -/
theorem entryIndex_eq (v : Variation) (entry : MethodRef) :
    entryIndex v.program' entry = entryIndex v.program entry := by
  have hnative : v.program'.config.native = v.program.config.native :=
    v.relaxes.native_eq
  have himage : v.program'.image = v.program.image := rfl
  unfold entryIndex
  rw [hnative, himage]

theorem start (hv : v.height = 0) (entry : MethodRef) :
    v.InStep δ 0 0 (Machine.start entry) (Machine.start entry) := by
  apply InStep.getProgram
  rw [entryIndex_eq]
  refine (InStep.lift _).bind fun index => ?_
  refine (InStep.lift (v.image.method index)).bind fun method => ?_
  refine (record _ _ _).bind fun _ => ?_
  have henter : v.InStep δ 0 0
      (Machine.enter (.enter index method.frameLocals #[] 0))
      (Machine.enter (.enter index method.frameLocals #[] 0)) := enter _
  refine Mirrors.bind ?_ fun _ => henter
  apply Mirrors.modify
  intro m m' hm
  refine hm.setFrames (fun _ _ => Nat.zero_le _) ?_
  exact hm.store.stack.truncate (Nat.le_of_eq hv) (Nat.le_refl 0)

theorem reportEnd (entry : MethodRef) :
    v.InStep δ k k (Machine.reportEnd entry)
      (Machine.reportEnd entry) := by
  apply InStep.get
  intro m m' hm
  rw [hm.steps_eq]
  exact record _ _ _

theorem machines_reportFault (hm : v.Machines k m m') (e : Fault) :
    v.Machines k (reportFault e m) (reportFault e m') := by
  unfold reportFault
  rw [hm.depth_eq]
  apply hm.setStore
  refine ⟨hm.store.stack, hm.store.heap, hm.store.console_eq, ?_,
    hm.store.devices_eq⟩
  intro hw
  simp only [hm.store.log_eq hw]

theorem finish (hv : v.height = 0) (fuel : Nat) (entry : MethodRef) :
    v.InStep δ 0 0 (Machine.finish fuel entry)
      (Machine.finish fuel entry) := by
  intro m m' hm
  have hsteps := runSteps hv fuel m m' hm
  have hreport : ∀ value, v.InStep δ 0 0
      (do Machine.reportEnd entry; return Outcome.finished value)
      (do Machine.reportEnd entry; return Outcome.finished value) :=
    fun value => (reportEnd entry).bind fun _ => InStep.pure _
  unfold Follows Ends Machine.finish
  cases hrun : Machine.runSteps fuel m with
  | ok outcome n =>
    obtain ⟨n', hrun', hn⟩ := hsteps.of_ok hrun
    simp only [hrun']
    cases outcome with
    | unfinished => exact ⟨n', rfl, hn⟩
    | finished value => exact hreport value n n' hn
  | error e n =>
    rcases Ends.of_error hsteps hrun with he | ⟨n', hrun', hn⟩
    · exact .inl he
    · simp only [hrun']
      exact .inr ⟨_, rfl, machines_reportFault hn e⟩

theorem run (hv : v.height = 0) (fuel : Nat) (entry : MethodRef) :
    v.InStep δ 0 0 (Machine.run fuel entry)
      (Machine.run fuel entry) :=
  (start hv entry).bind fun _ =>
  finish hv fuel entry

theorem runMain (hv : v.height = 0) (fuel : Nat) :
    v.InStep δ 0 0 (Machine.runMain fuel) (Machine.runMain fuel) := by
  apply InStep.getProgram
  exact run hv fuel v.image.main

end InStep

end SlotVm.Variation
