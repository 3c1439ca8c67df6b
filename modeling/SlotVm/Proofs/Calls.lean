import SlotVm.Proofs.Machine.Session

/-!
# Calls and returns

A call leaves the frames below it alone, and of the operand stack it takes
its arguments and nothing else.  When it has returned, the caller goes on
behind the invoke instruction, and the stack is what it was without the
arguments and with the returned value.  What the call has left besides is
there under the policy `retain` only.

`Machine.StaysAbove` is about the time between: the calls that a call makes
itself may go up and down as they like.  The invariant of this time is
`Machine.Over`, and it is the floor that carries it, because no operation
reaches below the floor and no call in between has a lower one.
-/

namespace SlotVm

/-- No invoke instruction is a return. -/
theorem Opcode.isReturn_of_isInvoke {op : Opcode} (h : op.isInvoke = true) :
    op.isReturn = false := by
  unfold isInvoke at h
  split at h
  · rfl
  · cases h

namespace Machine

variable {δ : Type} {config : Config} {image : Image} {p : Program}
variable {m m' n u : Machine δ} {i : Instruction} {f f' : Frame}
variable {callers frames : List Frame} {rest : List Value} {flow : Flow}

/-- The machine is reached without coming back to so many frames. -/
inductive StaysAbove (depth : Nat) : Machine δ → Machine δ → Prop where
  | refl {m : Machine δ} : depth < m.depth → StaysAbove depth m m
  | tail {m n m' : Machine δ} : StaysAbove depth m n →
      step n = .ok .running m' → depth < m'.depth → StaysAbove depth m m'

theorem StaysAbove.reaches {depth : Nat} (h : StaysAbove depth m m') :
    Reaches m m' := by
  induction h with
  | refl _ => exact .refl _
  | tail _ hstep _ ih => exact .tail ih hstep

/-! ## The frames and values below a call -/

/-- A call is active above the frames `callers`, and the values `rest` of
the operand stack are out of its reach. -/
structure Over (callers : List Frame) (rest : List Value) (m : Machine δ) :
    Prop where
  frames : ∃ upper callee, m.frames = upper ++ callee :: callers ∧
    callee.base = rest.length
  values : rest <+: m.store.stack.values.toList

theorem Over.depth_lt (h : Over callers rest m) : callers.length < m.depth := by
  obtain ⟨upper, callee, hframes, -⟩ := h.frames
  unfold depth
  rw [hframes, List.length_append, List.length_cons]
  omega

/-- The values below the call are below the floor. -/
theorem Over.below (h : Over callers rest m) (ha : m.Active p) :
    rest <+: m.store.stack.below := by
  obtain ⟨upper, callee, hframes, hbase⟩ := h.frames
  have hmem : callee.base ∈ m.bases := by
    unfold bases
    rw [hframes]
    exact List.mem_map_of_mem (List.mem_append_right _ List.mem_cons_self)
  have hfloor := ha.base_le_floor hmem
  unfold Stack.below
  rw [List.prefix_take_iff]
  exact ⟨h.values, hbase ▸ hfloor⟩

/-- The current frame is replaced by one with the same base. -/
theorem Over.setCurrent (h : Over callers rest m)
    (hframes : m.frames = f :: frames) (hframes' : m'.frames = f' :: frames)
    (hbase : f'.base = f.base)
    (hvalues : rest <+: m'.store.stack.values.toList) :
    Over callers rest m' := by
  obtain ⟨upper, callee, hcallee, hlength⟩ := h.frames
  rw [hframes] at hcallee
  refine ⟨?_, hvalues⟩
  cases upper with
  | nil =>
    obtain ⟨rfl, rfl⟩ := List.cons.inj hcallee
    exact ⟨[], f', hframes', hbase.trans hlength⟩
  | cons g upper =>
    obtain ⟨rfl, rfl⟩ := List.cons.inj hcallee
    exact ⟨f' :: upper, callee, hframes', hlength⟩

/-- The values stay while those below the floor do. -/
theorem Over.values_of_below (h : Over callers rest m) (ha : m.Active p)
    (hbelow : m.store.stack.below <+: m'.store.stack.values.toList) :
    rest <+: m'.store.stack.values.toList :=
  (h.below ha).trans hbelow

/-- What is below a call stays there until the call returns. -/
theorem Over.step (h : Over callers rest m) (hto : StepsTo p m flow m')
    (hdepth : callers.length < m'.depth) : Over callers rest m' := by
  obtain ⟨i, f, frames, n, hpoised, heffect⟩ := hto
  have hturn := hpoised.turn
  have hn : Over callers rest n := by
    apply h.setCurrent hpoised.frames_eq hturn.frames_eq rfl
    rw [hpoised.same.stack_eq]
    exact h.values
  cases heffect with
  | stays hs =>
    obtain ⟨f', hframes', -, hbase, -⟩ := hs.frame
    apply hn.setCurrent hturn.frames_eq hframes' hbase
    apply hn.values_of_below hturn.active
    rw [← hs.change.stack.below_eq, ← Stack.below_append_operands]
    exact List.prefix_append _ _
  | calls hc =>
    obtain ⟨index, method, args, -, -, -, hvalues, hframes⟩ := hc.callee
    obtain ⟨upper, callee, hcallee, hbase⟩ := hn.frames
    rw [hcallee, ← List.cons_append] at hframes
    refine ⟨⟨_, callee, hframes, hbase⟩, ?_⟩
    have hlength := (hn.below hturn.active).length_le
    rw [hturn.founded.sound.bounded.length_below] at hlength
    have hprefix := hn.values
    rw [hvalues] at hprefix
    apply List.prefix_of_prefix_length_le hprefix (List.prefix_append _ _)
    exact Nat.le_trans hlength hc.floor_le
  | returns hr =>
    obtain ⟨value, residue, -, -, -, hvalues, -⟩ := hr.returned
    obtain ⟨upper, callee, hcallee, hbase⟩ := hn.frames
    rw [hturn.frames_eq] at hcallee
    cases upper with
    | nil =>
      obtain ⟨-, rfl⟩ := List.cons.inj hcallee
      unfold depth at hdepth
      rw [hr.frames_eq] at hdepth
      omega
    | cons g upper =>
      obtain ⟨-, rfl⟩ := List.cons.inj hcallee
      refine ⟨⟨upper, callee, hr.frames_eq, hbase⟩, ?_⟩
      apply hn.values_of_below hturn.active
      rw [hvalues, List.append_assoc]
      exact List.prefix_append _ _

theorem StaysAbove.over (h : StaysAbove callers.length m m')
    (hm : m.Founded p) (ha : m.Active p) (ho : Over callers rest m) :
    Over callers rest m' := by
  induction h with
  | refl _ => exact ho
  | tail hn hstep hdepth ih =>
    obtain ⟨hn, han⟩ := hn.reaches.invariant hm ha
    exact ih.step ((step_ends hn han).of_ok hstep) hdepth

/-! ## From the call to its return -/

/-- A step that adds a frame is an invoke instruction that calls a method
with code. -/
structure CallStep (p : Program) (i : Instruction) (f : Frame)
    (callers : List Frame) (m n : Machine δ) : Prop where
  isInvoke : i.operation.opcode.isInvoke = true
  fetched : m.fetch = .ok i
  frames_eq : m.frames = f :: callers
  callee : ∃ index method args, p.image.methods[index]? = some method ∧
    method.isNative = false ∧ args.size = method.args.toNat ∧
    m.store.stack.values.toList =
      n.store.stack.values.toList ++ args.toList ∧
    n.frames = .enter index method.frameLocals args n.store.stack.size ::
      { f with pc := i.next } :: callers

/-- A return to the frames `callers`.  The values `rest` were out of reach of
the call, and the residue is what it leaves of its own. -/
structure ReturnStep (p : Program) (callers : List Frame)
    (rest : List Value) (m m' : Machine δ) : Prop where
  frames_eq : m'.frames = callers
  returned : ∃ (i : Instruction) (residue : List Value)
    (value : Option Value), m.fetch = .ok i ∧
    i.operation.opcode.isReturn = true ∧
    value.isSome = i.operation.returnsValue ∧
    m.store.stack.values.toList = rest ++ residue ++ value.toList ∧
    m'.store.stack.values.toList = rest ++
      (if p.config.residue = .retain then residue else []) ++ value.toList ∧
    (p.config.residue = .verify → residue = [])

theorem StepsTo.callStep (h : StepsTo p m flow n)
    (hdepth : n.depth = m.depth + 1) :
    ∃ i f callers, CallStep p i f callers m n := by
  obtain ⟨i, f, callers, k, hpoised, heffect⟩ := h
  have hk := hpoised.turn.frames_eq
  have hm := hpoised.frames_eq
  unfold depth at hdepth
  rw [hm, List.length_cons] at hdepth
  cases heffect with
  | stays hs =>
    obtain ⟨f', hframes', -⟩ := hs.frame
    rw [hframes', List.length_cons] at hdepth
    omega
  | calls hc =>
    refine ⟨i, f, callers, hc.isInvoke, hpoised.fetched, hm, ?_⟩
    rw [← hk, ← hpoised.same.stack_eq]
    exact hc.callee
  | returns hr =>
    rw [hr.frames_eq] at hdepth
    omega

/-- A call begins above the frames of its callers and out of reach of the
rest of the stack. -/
theorem CallStep.over (h : CallStep p i f callers m n) :
    Over ({ f with pc := i.next } :: callers) n.store.stack.values.toList n := by
  obtain ⟨index, method, args, -, -, -, -, hframes⟩ := h.callee
  refine ⟨⟨[], _, hframes, ?_⟩, List.prefix_refl _⟩
  rfl

theorem Over.returnStep (h : Over callers rest m) (hto : StepsTo p m flow m')
    (hne : callers ≠ []) (hdepth : m'.depth = callers.length) :
    ReturnStep p callers rest m m' := by
  obtain ⟨i, f, frames, n, hpoised, heffect⟩ := hto
  have hturn := hpoised.turn
  obtain ⟨upper, callee, hcallee, hbase⟩ := h.frames
  have hlength := h.depth_lt
  have hm := hpoised.frames_eq
  unfold depth at hdepth hlength
  rw [hm, List.length_cons] at hlength
  cases heffect with
  | stays hs =>
    obtain ⟨f', hframes', -⟩ := hs.frame
    rw [hframes', List.length_cons] at hdepth
    omega
  | calls hc =>
    obtain ⟨index, method, args, -, -, -, -, hframes⟩ := hc.callee
    rw [hframes, hturn.frames_eq, List.length_cons, List.length_cons] at hdepth
    omega
  | returns hr =>
    rw [hr.frames_eq] at hdepth
    rw [hm] at hcallee
    cases upper with
    | cons g upper =>
      rw [List.cons_append] at hcallee
      rw [(List.cons.inj hcallee).2, List.length_append, List.length_cons]
        at hdepth
      omega
    | nil =>
      obtain ⟨rfl, rfl⟩ := List.cons.inj hcallee
      have hover := h.setCurrent hm hturn.frames_eq rfl
        (by rw [hpoised.same.stack_eq]; exact h.values)
      have hbelow : n.store.stack.below = rest := by
        have hfloor := hturn.active.current_base
        rw [bases_of_frames hturn.frames_eq, List.head?_cons,
          Option.some.injEq] at hfloor
        refine ((hover.below hturn.active).eq_of_length ?_).symm
        rw [hturn.founded.sound.bounded.length_below, ← hfloor, hbase]
      obtain ⟨value, residue, hvalue, hoperands, hverify, hvalues, -⟩ :=
        hr.returned
      refine ⟨hr.frames_eq, i, residue, value, hpoised.fetched, hr.isReturn,
        hvalue, ?_, ?_, hverify⟩
      · rw [← hpoised.same.stack_eq, ← Stack.below_append_operands, hbelow,
          hoperands, List.append_assoc]
      · rw [hvalues, hbelow, if_neg hne]

/-! ## Returns that succeed -/

/-- Under `verify`, a call that returns has nothing on the operand stack but
the returned value. -/
theorem StepsTo.operands_of_verify (h : StepsTo p m flow m')
    (hfetch : m.fetch = .ok i) (hreturn : i.operation.opcode.isReturn = true)
    (hverify : p.config.residue = .verify) :
    m.store.stack.operands.length = if i.operation.returnsValue then 1 else 0 := by
  obtain ⟨j, f, callers, n, hpoised, heffect⟩ := h
  cases hfetch.symm.trans hpoised.fetched
  cases heffect with
  | stays hs =>
    rw [hs.isReturn_eq] at hreturn
    cases hreturn
  | calls hc =>
    rw [Opcode.isReturn_of_isInvoke hc.isInvoke] at hreturn
    cases hreturn
  | returns hr =>
    obtain ⟨value, residue, hvalue, hoperands, hnone, -⟩ := hr.returned
    rw [← hpoised.same.stack_eq, hoperands, hnone hverify, ← hvalue]
    cases value <;> rfl

/-- The last step of a run leaves the residue under `retain` only. -/
theorem StepsTo.values_of_finished {value : Option Value}
    (h : StepsTo p m (.finished value) m')
    (hpolicy : p.config.residue ≠ .retain) :
    m'.store.stack.values = #[] := by
  obtain ⟨i, f, callers, n, hpoised, heffect⟩ := h
  have hturn := hpoised.turn
  cases heffect with
  | returns hr =>
    obtain ⟨value', residue, -, -, -, hvalues, hflow⟩ := hr.returned
    cases callers with
    | cons caller rest => cases hflow
    | nil =>
      have hfloor := hturn.active.current_base
      have hfirst := hturn.active.first_base
      rw [bases_of_frames hturn.frames_eq] at hfloor hfirst
      have hzero : n.store.stack.floor = 0 :=
        (Option.some.inj hfloor).symm.trans (Option.some.inj hfirst)
      have hbelow : n.store.stack.below = [] := by
        rw [← List.length_eq_zero_iff,
          hturn.founded.sound.bounded.length_below, hzero]
      rw [hbelow, if_neg hpolicy, if_pos rfl] at hvalues
      exact Array.toList_eq_nil_iff.1 hvalues

/-! ## The discipline of calls -/

/-- A call comes back to its caller with the stack of before, a return that
succeeds under `verify` leaves nothing else, and a run that ends without a
fault leaves an empty stack unless the residue is retained. -/
theorem call_returns (config : Config) (image : Image) :
    (∀ (m n u m' : Machine δ) (flow : Flow), InRun config image m →
      step m = .ok .running n → n.depth = m.depth + 1 →
      StaysAbove m.depth n u → step u = .ok flow m' → m'.depth = m.depth →
      ∃ i f callers, CallStep (.load config image) i f callers m n ∧
        ReturnStep (.load config image) ({ f with pc := i.next } :: callers)
          n.store.stack.values.toList u m') ∧
    (∀ (u u' : Machine δ) (i : Instruction) (flow : Flow),
      InRun config image u → u.fetch = .ok i →
      i.operation.opcode.isReturn = true → step u = .ok flow u' →
      config.residue = .verify →
      u.store.stack.operands.length =
        if i.operation.returnsValue then 1 else 0) ∧
    ∀ (m m' : Machine δ) (fuel : Nat) (entry : MethodRef)
      (value : Option Value), Rests config image m →
      run fuel entry m = .ok (.finished value) m' →
      config.residue ≠ .retain → m'.store.stack.values = #[] := by
  refine ⟨?_, ?_, ?_⟩
  · intro m n u m' flow hrun hcall hpushed habove hreturn hdepth
    obtain ⟨hm, ha⟩ := hrun.invariant
    have hto := (step_ends hm ha).of_ok hcall
    obtain ⟨i, f, callers, hstep⟩ := hto.callStep hpushed
    have hlength : m.depth = ({ f with pc := i.next } :: callers).length := by
      unfold depth
      rw [hstep.frames_eq]
      rfl
    rw [hlength] at habove hdepth
    have hover := habove.over hto.founded hto.active hstep.over
    obtain ⟨hu, hau⟩ := habove.reaches.invariant hto.founded hto.active
    refine ⟨i, f, callers, hstep, ?_⟩
    exact hover.returnStep ((step_ends hu hau).of_ok hreturn)
      (List.cons_ne_nil _ _) hdepth
  · intro u u' i flow hrun hfetch hopcode hreturn hverify
    obtain ⟨hu, hau⟩ := hrun.invariant
    exact ((step_ends hu hau).of_ok hreturn).operands_of_verify hfetch hopcode
      hverify
  · intro m m' fuel entry value hm hrun hpolicy
    obtain ⟨m0, -, hstart, n, m1, hreach, hstep, hlogged⟩ :=
      (run_ends fuel entry hm.founded).of_ok hrun
    obtain ⟨hm0, ha0⟩ := hstart.turn hm.founded
    obtain ⟨hn, han⟩ := hreach.invariant hm0 ha0
    rw [hlogged.same.stack_eq]
    exact ((step_ends hn han).of_ok hstep).values_of_finished hpolicy

/-- A call with one argument that returns it, and the end of its run. -/
theorem call_returns_nestedCall : ∃ m n u m' last : Machine Unit,
    (∃ i f callers,
      CallStep (.load .unix nestedCall) i f callers m n ∧
      ReturnStep (.load .unix nestedCall) ({ f with pc := i.next } :: callers)
        n.store.stack.values.toList u m') ∧
    u.store.stack.operands.length = 1 ∧ last.store.stack.values = #[] := by
  have htest : (fresh? .unix nestedCall).any (fun m0 =>
      (ended? 5 nestedCall.main m0).any fun _ =>
      (paused? 1 nestedCall.main m0).any fun m => (next? m).any fun n =>
      (next? n).any fun u => (next? u).any fun m' => u.fetch.toOption.any fun i =>
        m.depth == 1 && n.depth == 2 && u.depth == 2 && m'.depth == 1 &&
          i.operation.opcode.isReturn && i.operation.returnsValue) = true := by
    decide +kernel
  simp only [Option.any_eq_true, Bool.and_eq_true, beq_iff_eq] at htest
  obtain ⟨m0, hfresh, ⟨value, last⟩, hended, m, hpaused, n, hn, u, hu, m', hm',
    i, hi, ⟨⟨⟨⟨hone, htwo⟩, hover⟩, hback⟩, hopcode⟩, hvalue⟩ := htest
  have hm0 := rests_of_fresh hfresh
  have hcall := step_of_next hn
  have hbody := step_of_next hu
  have hreturn := step_of_next hm'
  have hfetch := eq_ok_of_toOption hi
  have hrunning : InRun .unix nestedCall m :=
    ⟨m0, 1, _, hm0, run_of_paused hpaused⟩
  have hrunning' := (hrunning.step hcall).step hbody
  have habove : StaysAbove m.depth n u :=
    .tail (.refl (by omega)) hbody (by omega)
  obtain ⟨hreturns, hverify, hempty⟩ :=
    call_returns (δ := Unit) .unix nestedCall
  have hlength := hverify u m' i .running hrunning' hfetch hopcode hreturn rfl
  rw [hvalue] at hlength
  have hpolicy : Config.unix.residue ≠ .retain := by decide
  exact ⟨m, n, u, m', last,
    hreturns m n u m' .running hrunning hcall (by omega) habove hreturn
      (by omega),
    hlength, hempty m0 last 5 _ value hm0 (run_of_ended hended) hpolicy⟩

end Machine

end SlotVm
