import SlotVm.Proofs.Machine.Effect
import SlotVm.Proofs.Store.Program

/-!
# Calls and returns have the effects of operations

`Machine.Turn` is what an operation starts from: a machine that satisfies
both invariants, with its current call named.  The statements here are about
the actions on a whole machine, those for calls and returns above all.

An action on the store becomes an effect through `Turn.effect_onStore`.  An
action that looks at something first goes through `Turn.onStore`, which keeps
what has been found out for the rest of the operation.

A return cannot overflow the stack of the caller.  The returned value was on
the stack of the callee, so there is room for it (`Settled.room`).
-/

namespace SlotVm.Machine

open SlotVm.Action Store

variable {δ α : Type} {p : Program} {o : Operation} {m m' u : Machine δ}
variable {f f' : Frame} {callers : List Frame} {e : Fault} {t : Store δ}

/-- A machine that runs an operation of the call `f`. -/
structure Turn (p : Program) (f : Frame) (callers : List Frame)
    (m : Machine δ) : Prop where
  founded : m.Founded p
  active : m.Active p
  frames_eq : m.frames = f :: callers

/-! ## Actions of a machine -/

/-- The rule for an action on the store. -/
theorem onStore_ends {a : Action (Store δ) α} {post : α → Machine δ → Prop}
    {fail : Fault → Machine δ → Prop}
    (h : Ends a m.store (fun x t => post x { m with store := t })
      (fun e t => fail e { m with store := t })) :
    Ends (onStore a) m post fail := by
  unfold Ends
  simp only [onStore]
  cases ha : a m.store with
  | ok x t => exact h.of_ok ha
  | error e t => exact h.of_error ha

/-- A log message changes the log only. -/
theorem record_ends (level : Level) (target : String) (text : Unit → String)
    {fail : Fault → Machine δ → Prop} :
    Ends (Machine.record level target text) m
      (fun _ u => ∃ t, u = { m with store := t } ∧ Same m.store t) fail := by
  apply onStore_ends
  exact ⟨_, rfl, rfl, rfl, rfl⟩

theorem frame_of_frames (hframes : m.frames = f :: callers) :
    m.frame = .ok f := by
  unfold Machine.frame
  rw [hframes]

/-- Looking at the current call. -/
theorem frame_eq (hframes : m.frames = f :: callers) :
    Action.read Machine.frame m = .ok f m :=
  lift_of_ok (frame_of_frames hframes)

/-- The rule for a change of the current call. -/
theorem updateFrame_ends {g : Frame → Except Fault Frame}
    (hframes : u.frames = f :: callers) :
    Ends (updateFrame g) u
      (fun _ w => ∃ f', g f = .ok f' ∧ w = { u with frames := f' :: callers })
      (fun e w => g f = .error e ∧ w = u) := by
  unfold Ends updateFrame
  rw [hframes]
  simp only
  cases g f with
  | ok f' => exact ⟨f', rfl, rfl⟩
  | error e => exact ⟨rfl, rfl⟩

/-- The rule for an instruction after which the run goes on. -/
theorem proceed_ends {a : Action (Machine δ) Unit}
    {fail : Fault → Machine δ → Prop}
    (h : Ends a m (fun _ => Effect p o f callers m .running) fail) :
    Ends (proceed a) m (Effect p o f callers m) fail :=
  h.bind fun _ _ hm => Ends.pure hm

/-- What goes on after it is what it does itself. -/
theorem proceed_eq_ok {a : Action (Machine δ) Unit}
    (h : proceed a m = .ok flow m') : a m = .ok () m' := by
  obtain ⟨_, u, ha, hreturn⟩ := seq_eq_ok h
  cases hreturn
  exact ha

/-- An operation that stops while it works on the store. -/
theorem halts_of_stopped
    (h : Stopped p f.Holds m.store (o.MayRaise p) e t) :
    Halts p o f m e { m with store := t } where
  program_eq := rfl
  bridge_eq := rfl
  statics_eq := rfl
  quiet := h.1
  frames_eq := rfl
  mayRaise := h.2

/-- An operation that changes the store and the current call. -/
theorem effect_stays (ho : o.opcode.isReturn = false)
    (hc : Change p f.Holds (o.MayWrite m.statics) m.store t)
    (hmethod : f'.method = f.method) (hbase : f'.base = f.base)
    (hsize : f'.locals.size = f.locals.size)
    (hpc : f'.pc = f.pc ∨ o.Leads f'.pc)
    (horigin : ∀ v ∈ f'.locals, Origin p f.Holds m.store t.heap v) :
    Effect p o f callers m .running
      { m with store := t, frames := f' :: callers } :=
  .stays {
    program_eq := rfl
    bridge_eq := rfl
    statics_eq := rfl
    isReturn_eq := ho
    change := hc
    frame := ⟨f', rfl, hmethod, hbase, hsize, hpc, horigin⟩ }

namespace Turn

variable (h : Turn p f callers m)

include h

/-- An operation that changes the store only. -/
theorem stays_store (ho : o.opcode.isReturn = false)
    (hc : Change p f.Holds (o.MayWrite m.statics) m.store t) :
    Effect p o f callers m .running { m with store := t } := by
  have heffect : Effect p o f callers m .running
      { m with store := t, frames := f :: callers } :=
    effect_stays ho hc rfl rfl rfl (.inl rfl) fun v hv => .known hv
  rw [← h.frames_eq] at heffect
  exact heffect

/-- What an operation on the store starts from. -/
theorem ready (ho : o.opcode.isReturn = false) :
    Ready p f.Holds m.statics m.store (o.MayRaise p) where
  sound := h.founded.sound
  known := h.founded.holds h.frames_eq
  common := fun _ he => Operation.mayRaise_of_common ho he

omit h in
/-- An action on the store that an operation begins with. -/
theorem onStore {a : Action (Store δ) α} {post : α → Store δ → Prop}
    (ha : Ends a m.store post
      (Stopped p f.Holds m.store (o.MayRaise p))) :
    Ends (Machine.onStore a) m
      (fun x u => ∃ t, u = { m with store := t } ∧ post x t)
      (Halts p o f m) := by
  apply onStore_ends
  apply ha.mono
  · exact fun x t ht => ⟨t, rfl, ht⟩
  · exact fun e t ht => halts_of_stopped ht

/-- An action on the store that is all an operation does. -/
theorem effect_onStore (ho : o.opcode.isReturn = false)
    {a : Action (Store δ) Unit}
    (ha : Ends a m.store
      (fun _ t => Change p f.Holds (o.MayWrite m.statics) m.store t)
      (Stopped p f.Holds m.store (o.MayRaise p))) :
    Ends (Machine.onStore a) m
      (fun _ => Effect p o f callers m .running) (Halts p o f m) := by
  apply onStore_ends
  apply ha.mono
  · exact fun _ t ht => h.stays_store ho ht
  · exact fun e t ht => halts_of_stopped ht

theorem getProgram : Machine.getProgram m = .ok p m := by
  rw [← h.founded.program_eq]
  rfl

/-- Going on at a position that the operation leads to. -/
theorem jump (ho : o.opcode.isReturn = false) {target : Nat}
    (ht : Quiet p f.Holds m.store t)
    (hleads : o.Leads target) :
    Ends (Machine.jump target) { m with store := t }
      (fun _ => Effect p o f callers m .running) (Halts p o f m) := by
  have hframes : ({ m with store := t } : Machine δ).frames = f :: callers :=
    h.frames_eq
  apply (updateFrame_ends hframes).mono
  · intro _ w hend
    obtain ⟨f', hf', rfl⟩ := hend
    cases hf'
    exact effect_stays ho ht.change rfl rfl rfl (.inr hleads)
      fun v hv => .known hv
  · intro e w hend
    obtain ⟨he, -⟩ := hend
    cases he

/-! ## Calls -/

/-- A method of a native class. -/
theorem callNative {kind : InvokeKind} {raw : UInt16} (r : MethodRef) :
    Ends (Machine.callNative r) m
      (fun _ => Effect p (.index (.invoke kind) raw) f callers m .running)
      (Halts p (.index (.invoke kind) raw) f m) := by
  have hready : Ready p f.Holds m.statics m.store
      (Operation.MayRaise p (.index (.invoke kind) raw)) := h.ready rfl
  have hinvoke := h.founded.standard.invoke hready (fun _ _ => rfl) r
  refine Ends.bind_ok rfl ?_
  rw [h.founded.program_eq]
  exact h.effect_onStore rfl hinvoke

omit h in
/-- Reporting a call changes the log at most. -/
theorem traceCall (r : MethodRef) {fail : Fault → Machine δ → Prop} :
    Ends (Machine.traceCall r) m
      (fun _ u => ∃ t, u = { m with store := t } ∧ Same m.store t) fail := by
  refine Ends.bind_ok rfl ?_
  split
  · exact Ends.bind_ok rfl (record_ends _ _ _)
  · exact ⟨_, rfl, rfl, rfl, rfl⟩

/-- The arguments of a call. -/
theorem popArguments (count : Nat) :
    Ends (Machine.onStore (Store.onStack (Stack.popN count))) m
      (fun args u => ∃ stack,
        u = { m with store := { m.store with stack } } ∧
        Takes p f.Holds m.store m.store stack ∧ args.size = count ∧
        m.store.stack.operands = stack.operands ++ args.toList)
      (Halts p o f m) := by
  have hquiet : Quiet p f.Holds m.store m.store :=
    .refl h.founded.sound.bounded h.founded.sound.laid
  apply onStore_ends
  apply Ends.onPart
  apply (Stack.popN_ends h.founded.sound.bounded count).mono
  · intro args stack hend
    obtain ⟨habove, hsize, hoperands⟩ := hend
    exact ⟨stack, rfl, hquiet.takes_lower habove hoperands, hsize, hoperands⟩
  · intro e stack hend
    obtain ⟨rfl, -, rfl⟩ := hend
    exact halts_of_stopped ⟨hquiet, trivial⟩

/-- Beginning the frame of a method, after its arguments have been taken. -/
theorem enter (hinvoke : o.opcode.isInvoke = true) {index : Nat}
    {method : MethodDescriptor} {args : Array Value} {stack : Stack}
    (hmethod : p.image.methods[index]? = some method)
    (hcode : method.isNative = false) (hargs : args.size = method.args.toNat)
    (hstack : Takes p f.Holds m.store m.store stack)
    (hoperands : m.store.stack.operands = stack.operands ++ args.toList)
    (ht : Same { m.store with stack } t) :
    Ends (Machine.enter
        (.enter index method.frameLocals args t.stack.size))
      { m with store := t } (fun _ => Effect p o f callers m .running)
      (Halts p o f m) := by
  obtain rfl := h.founded.program_eq
  have hbounded := hstack.above.bounded
  have hvalues : m.store.stack.values.toList =
      t.stack.values.toList ++ args.toList := by
    rw [ht.stack_eq, ← Stack.below_append_operands,
      ← Stack.below_append_operands stack, hstack.above.below_eq, hoperands,
      List.append_assoc]
  unfold Ends Machine.enter
  by_cases hdepth : m.frames.length < m.program.config.maxCallDepth
  · simp only [if_pos hdepth]
    exact .calls {
      program_eq := rfl
      bridge_eq := rfl
      statics_eq := rfl
      isInvoke := hinvoke
      depth_lt := hdepth
      callee := ⟨index, method, args, hmethod, hcode, hargs, hvalues, rfl⟩
      floor_le := by
        have hfloor := hbounded.floor_le
        rw [hstack.above.floor_eq] at hfloor
        rw [ht.stack_eq]
        exact hfloor
      floor_eq := rfl
      limit_eq := by
        rw [ht.stack_eq]
        exact hstack.above.limit_eq
      heap_eq := ht.heap_eq
      console_eq := ht.console_eq }
  · simp only [if_neg hdepth]
    have hquiet : Quiet m.program f.Holds m.store m.store :=
      .refl h.founded.sound.bounded h.founded.sound.laid
    have hinput := congrArg Console.input ht.console_eq
    have hc := (hquiet.toChange.setStack hstack).congr ht.stack_eq ht.heap_eq
      hinput
    have hquiet' : Quiet m.program f.Holds m.store t :=
      ⟨hc, by rw [ht.console_eq]⟩
    exact halts_of_stopped ⟨hquiet', trivial⟩

/-- A method that a lookup has found. -/
theorem call {kind : InvokeKind} {raw : UInt16} {found : Resolved}
    (hfound : found.Present p.image) :
    Ends (Machine.call found) m
      (fun _ => Effect p (.index (.invoke kind) raw) f callers m .running)
      (Halts p (.index (.invoke kind) raw) f m) := by
  cases found with
  | native r => exact h.callNative r
  | method index =>
    obtain ⟨method, hmethod⟩ := hfound
    refine Ends.bind_ok h.getProgram ?_
    refine Ends.bind_ok (lift_of_ok (Image.method_of_entry hmethod)) ?_
    cases hcode : method.isNative with
    | true =>
      simp only [if_true]
      exact h.callNative method.ref
    | false =>
      simp only [Bool.false_eq_true, if_false]
      refine (h.popArguments method.args.toNat).bind ?_
      intro args u hend
      obtain ⟨stack, rfl, hstack, hargs, hoperands⟩ := hend
      refine (traceCall method.ref).bind ?_
      intro _ w hend
      obtain ⟨t, rfl, hsame⟩ := hend
      refine Ends.bind_ok rfl ?_
      exact h.enter rfl hmethod hcode hargs hstack hoperands hsame

/-- An invoke instruction. -/
theorem invoke {kind : InvokeKind} {raw : UInt16} :
    Ends (Machine.invoke kind raw) m
      (fun _ => Effect p (.index (.invoke kind) raw) f callers m .running)
      (Halts p (.index (.invoke kind) raw) f m) := by
  have hchecked := h.founded.valid.image
  have hready : Ready p f.Holds m.statics m.store
      (Operation.MayRaise p (.index (.invoke kind) raw)) := h.ready rfl
  refine Ends.bind_ok h.getProgram ?_
  simp only
  split
  · exact h.callNative _
  · have hresolve : ∀ {inherit : Bool} {r : MethodRef},
        r = p.config.native.layout.unpack raw →
        Ends (Action.lift (p.image.resolve p.config.native r inherit)) m
          (fun found w => w = m ∧ found.Present p.image)
          (Halts p (.index (.invoke kind) raw) f m) := by
      intro inherit r hend
      obtain rfl := hend
      apply Ends.lift
      · intro found hfound
        exact ⟨rfl, Image.resolve_present hfound⟩
      · intro e he
        apply halts_of_stopped
        refine ⟨hready.quiet_self, ?_⟩
        rcases hchecked.resolve_error he with rfl | ⟨hnone, rfl⟩
        · trivial
        · exact ⟨hnone, .inr ⟨kind, raw, rfl, rfl⟩⟩
    refine (hresolve rfl).bind ?_
    intro found w hend
    obtain ⟨rfl, hfound⟩ := hend
    split
    · refine (onStore (hready.dispatch hchecked _ hfound)).bind ?_
      intro nearest w' hend
      obtain ⟨t, rfl, rfl, hnearest⟩ := hend
      exact h.call hnearest
    · exact h.call hfound

/-! ## Returns -/

/-- The value that a call returns. -/
theorem popReturned :
    Ends (Machine.onStore Store.pop) m
      (fun v u => ∃ stack, u = { m with store := { m.store with stack } } ∧
        Takes p f.Holds m.store m.store stack ∧
        m.store.stack.operands = stack.operands ++ [v])
      (Halts p o f m) := by
  have hquiet : Quiet p f.Holds m.store m.store :=
    .refl h.founded.sound.bounded h.founded.sound.laid
  unfold Store.pop
  apply onStore_ends
  apply Ends.onPart
  apply (Stack.pop_ends h.founded.sound.bounded).mono
  · intro v stack hend
    obtain ⟨habove, hoperands⟩ := hend
    exact ⟨stack, rfl, hquiet.takes_lower habove hoperands, hoperands⟩
  · intro e stack hend
    obtain ⟨rfl, -, rfl⟩ := hend
    exact halts_of_stopped ⟨hquiet, trivial⟩

end Turn

/-- The residue of a call is treated as the configuration says. -/
theorem settle_ends (hprogram : u.program = p)
    (hfloor : u.store.stack.floor = f.base) (hfits : f.Fits p.image) :
    Ends (Machine.settle f) u
      (fun _ w => ∃ stack, w = { u with store := { u.store with stack } } ∧
        stack.limit = u.store.stack.limit ∧
        (p.config.residue = .verify → u.store.stack.operands = []) ∧
        stack.values.toList = u.store.stack.below ++
          if p.config.residue = .retain then u.store.stack.operands else [])
      (fun e w => w = u ∧ o.MayRaise p e) := by
  obtain rfl := hprogram
  have hlen := u.store.stack.length_operands
  unfold Stack.available at hlen
  unfold Ends Machine.settle Stack.size
  by_cases hunder : u.store.stack.values.size < f.base
  · simp only [if_pos hunder]
    exact ⟨trivial, trivial⟩
  · simp only [if_neg hunder]
    by_cases hnone : u.store.stack.values.size - f.base = 0
    · simp only [if_pos hnone]
      have hnil : u.store.stack.operands = [] := by
        rw [← List.length_eq_zero_iff]
        omega
      refine ⟨u.store.stack, rfl, rfl, fun _ => hnil, ?_⟩
      rw [← Stack.below_append_operands, hnil, ite_self]
    · simp only [if_neg hnone]
      cases hpolicy : u.program.config.residue with
      | verify =>
        obtain ⟨method, address, len, hmethod, -⟩ := hfits
        simp only [Image.method_of_entry hmethod]
        exact ⟨trivial, trivial⟩
      | discard =>
        refine ⟨u.store.stack.truncate f.base, rfl, rfl, ?_, ?_⟩
        · intro hverify
          cases hverify
        · simp [Stack.truncate, Stack.below, hfloor]
      | retain =>
        refine ⟨u.store.stack, rfl, rfl, ?_, ?_⟩
        · intro hverify
          cases hverify
        · rw [if_pos rfl, Stack.below_append_operands]

/-- A return takes the operand stack `before` to `settled`: first the
returned value is taken, which leaves `stack`, and then the residue as the
configuration says. -/
structure Settled (p : Program) (value : Option Value)
    (before stack settled : Stack) : Prop where
  above : before.Above stack
  operands_eq : before.operands = stack.operands ++ value.toList
  limit_eq : settled.limit = stack.limit
  verify : p.config.residue = .verify → stack.operands = []
  values_eq : settled.values.toList = stack.below ++
    if p.config.residue = .retain then stack.operands else []

/-- There is room for the returned value, which was on the stack before. -/
theorem Settled.room {v : Value} {before stack settled : Stack}
    (hs : Settled p (some v) before stack settled) (hb : before.Bounded) :
    settled.size < settled.limit := by
  have hsize := hb.size_le
  rw [Stack.size_eq, hs.operands_eq, ← hs.above.below_eq, List.length_append,
    Option.toList_some, List.length_singleton] at hsize
  have hlen := congrArg List.length hs.values_eq
  rw [List.length_append, Array.length_toList] at hlen
  rw [hs.limit_eq, hs.above.limit_eq]
  unfold Stack.size
  split at hlen
  · omega
  · rw [List.length_nil] at hlen
    omega

/-- Giving the stack back to the caller. -/
theorem leave_eq (hframes : m.frames = f :: callers) :
    leave m = .ok () { m with
      frames := callers
      store := { m.store with
        stack := { m.store.stack with
          floor := (callers.head?.map (·.base)).getD 0 } } } := by
  cases m with
  | mk program bridge store frames statics steps =>
    cases hframes
    cases callers with
    | nil => rfl
    | cons caller rest => rfl

/-- The end of a return, with the returned value on the stack of the
caller. -/
theorem effect_returns (hreturn : o.opcode.isReturn = true) {value : Option Value}
    (hvalue : value.isSome = o.returnsValue) {stack settled : Stack}
    (hs : Settled p value m.store.stack stack settled)
    {values : Array Value} (hvalues : values.toList =
      settled.values.toList ++ if callers = [] then [] else value.toList) :
    Effect p o f callers m
      (if callers = [] then .finished value else .running)
      { m with
        frames := callers
        store := { m.store with
          stack := { settled with
            values
            floor := (callers.head?.map (·.base)).getD 0 } } } := by
  apply Effect.returns
  exact {
    program_eq := rfl
    bridge_eq := rfl
    statics_eq := rfl
    isReturn := hreturn
    frames_eq := rfl
    returned := by
      refine ⟨value, stack.operands, hvalue, hs.operands_eq, hs.verify, ?_,
        rfl⟩
      simp only
      rw [hvalues, hs.values_eq, hs.above.below_eq]
    floor_eq := rfl
    limit_eq := hs.limit_eq.trans hs.above.limit_eq
    heap_eq := rfl
    console_eq := rfl }

/-- Handing the returned value over, after the frame has been left. -/
theorem handOver_ends (hreturn : o.opcode.isReturn = true) {value : Option Value}
    (hvalue : value.isSome = o.returnsValue) {stack settled : Stack}
    (hs : Settled p value m.store.stack stack settled)
    (hb : m.store.stack.Bounded) :
    Ends (do
        let m ← get
        if m.frames.isEmpty then
          return .finished value
        match value with
        | some v => Machine.onStore (Store.push v)
        | none => pure ()
        return .running)
      { m with
        frames := callers
        store := { m.store with
          stack := { settled with
            floor := (callers.head?.map (·.base)).getD 0 } } }
      (Effect p o f callers m) (Halts p o f m) := by
  refine Ends.bind_ok rfl ?_
  cases callers with
  | nil =>
    exact Ends.pure (effect_returns hreturn hvalue hs (List.append_nil _).symm)
  | cons caller rest =>
    cases value with
    | none =>
      exact Ends.pure (effect_returns hreturn hvalue hs (List.append_nil _).symm)
    | some v =>
      refine Ends.bind (onStore_ends ?_) fun _ _ hw => Ends.pure hw
      apply (push_room rfl (hs.room hb)).imp
      intro _ t hend
      obtain rfl := hend
      exact effect_returns hreturn hvalue hs Array.toList_push

namespace Turn

variable (h : Turn p f callers m)

include h

/-- A return, after the returned value has been taken. -/
theorem returnFrom (hreturn : o.opcode.isReturn = true)
    {value : Option Value} (hvalue : value.isSome = o.returnsValue)
    {stack : Stack} (hstack : Takes p f.Holds m.store m.store stack)
    (hoperands : m.store.stack.operands = stack.operands ++ value.toList) :
    Ends (Machine.returnFrom value)
      { m with store := { m.store with stack } }
      (Effect p o f callers m) (Halts p o f m) := by
  have hbounded := h.founded.sound.bounded
  have hquiet : Quiet p f.Holds m.store { m.store with stack } :=
    ⟨(Change.refl hbounded h.founded.sound.laid).setStack hstack, rfl⟩
  have hfloor : stack.floor = f.base := by
    have hcurrent := h.active.current_base
    rw [bases_of_frames h.frames_eq, List.head?_cons, Option.some.injEq]
      at hcurrent
    rw [hstack.above.floor_eq, hcurrent]
  have hfits : f.Fits p.image :=
    h.active.fits f (by rw [h.frames_eq]; exact List.mem_cons_self)
  have hframes : ∀ stack : Stack,
      ({ m with store := { m.store with stack } } : Machine δ).frames =
        f :: callers := fun _ => h.frames_eq
  refine Ends.bind_ok (frame_eq (hframes stack)) ?_
  have hsettle := (settle_ends (u := { m with store := { m.store with stack } })
    h.founded.program_eq hfloor hfits).imp_fail fun e w hw =>
      show Halts p o f m e w from hw.1 ▸ halts_of_stopped ⟨hquiet, hw.2⟩
  refine hsettle.bind ?_
  intro _ w hend
  obtain ⟨settled, rfl, hlimit, hverify, hsettled⟩ := hend
  have hs : Settled p value m.store.stack stack settled :=
    ⟨hstack.above, hoperands, hlimit, hverify, hsettled⟩
  refine Ends.bind_ok (leave_eq (hframes settled)) ?_
  exact handOver_ends hreturn hvalue hs hbounded

end Turn

end SlotVm.Machine
