import SlotVm.Proofs.Assembler
import SlotVm.Proofs.Dispatch

/-!
# Calls reach the method that they name

An invoke instruction for a method passes through several encodings before
the method is called.  The assembler packs the reference into the bits that
the configuration gives to each id and writes the operand behind the opcode.
The machine decodes the operand, unpacks the reference, asks if its class is
native, and looks the method up.  `Machine.call_reaches_method` says that
nothing is lost on the way.  For a method with code of an accepted image,
static and special calls always can be written, and they call this method and
no other.

* The reference fits the layout and is read back (`RefLayout.unpack_pack`),
  its class is not native, and no other method has it, whether the profile
  inherits or not (`Turn.invoke_named`).
* The bytes stand in finished code where the call was written
  (`StandsAt.holds`), and the machine fetches them from there
  (`fetch_of_decode`).
* The call begins, or there are too few operands or too many calls
  (`Turn.call_begins`).
-/

namespace SlotVm

open Assembler Instruction

variable {config : Config} {image : Image} {callee : MethodDescriptor}
variable {index : Nat} {packed : UInt16}

/-! ## Writing a call -/

/-- The reference of a method can be packed. -/
theorem Image.WellFormed.pack_ok (hwell : image.WellFormed config)
    (hvalid : config.Valid) (hcallee : image.methods[index]? = some callee) :
    ∃ packed, config.native.layout.pack callee.ref = .ok packed := by
  have hfits : config.native.layout.Fits callee.ref :=
    (RefLayout.fits_iff hvalid.methodBits_le).2
      (hwell.refs_lt callee (Array.mem_of_getElem? hcallee))
  unfold RefLayout.pack
  rw [if_pos hfits]
  exact ⟨_, rfl⟩

/-- What an assembler adds for a call. -/
theorem Assembler.invoke_eq {a : Assembler} {op : Opcode} {r : MethodRef}
    (hpack : a.layout.pack r = .ok packed) :
    a.invoke op r = .ok (a.add (.bytes (op.byte :: bytesOfShort packed))) := by
  rw [Assembler.invoke, bind_of_ok hpack]
  rfl

namespace Machine

open SlotVm.Action Store

variable {δ : Type} {p : Program} {m n : Machine δ} {f : Frame}
variable {callers : List Frame} {kind : InvokeKind}

/-! ## Running a call -/

/-- A call that is not virtual is one of the method that it names. -/
theorem Turn.invoke_named (h : Turn p f callers n)
    (hlinked : p.image.Linked p.config.native)
    (hcallee : p.image.methods[index]? = some callee) (hkind : kind ≠ .virtual)
    (hunpack : p.config.native.layout.unpack packed = callee.ref) :
    Machine.invoke kind packed n = Machine.call (.method index) n := by
  have hdeclares : p.image.Declares callee.methodId callee.classId :=
    ⟨callee, Array.mem_of_getElem? hcallee, rfl⟩
  have hnative : ¬ p.config.native.Contains callee.ref.classId :=
    hlinked.not_native_of_declares hdeclares
  have hfound : p.image.resolve p.config.native callee.ref
      p.config.features.inheritance = .ok (.method index) :=
    hlinked.resolveFrom_own hcallee rfl _
  rw [Machine.invoke, seq_of_ok h.getProgram]
  simp only [hunpack, if_neg hnative]
  rw [seq_of_ok (lift_of_ok hfound), if_neg fun h => hkind h.1]

/-- A static or special call of a method with code takes its arguments and
begins, unless there are too few operands or, if there are enough, too many
calls. -/
theorem step_named (hfounded : m.Founded p) (hactive : m.Active p)
    (hlinked : p.image.Linked p.config.native)
    (hcallee : p.image.methods[index]? = some callee)
    (hcode : callee.isNative = false) (hkind : kind ≠ .virtual)
    (hunpack : p.config.native.layout.unpack packed = callee.ref)
    {code : Array UInt8} (hframes : m.frames = f :: callers)
    (hcurrent : p.codeOf f.method = .ok code)
    (hholds : Holds code f.pc
      ((Opcode.index (.invoke kind)).byte :: bytesOfShort packed)) :
    Ends step m
      (fun flow m' => flow = .running ∧
        callee.args.toNat ≤ m.store.stack.available ∧
        m.depth < p.config.maxCallDepth ∧
        Begun index callee ({ f with pc := f.pc + 3 } :: callers) m m')
      (fun e _ =>
        m.store.stack.available < callee.args.toNat ∧ e = .stackUnderflow ∨
        callee.args.toNat ≤ m.store.stack.available ∧
          p.config.maxCallDepth ≤ m.depth ∧
          e = .callDepthExceeded p.config.maxCallDepth) := by
  obtain ⟨i, hdecode, -, hnext, ho⟩ := decodes_index hholds
  obtain rfl := hfounded.program_eq
  have hfetch : m.fetch = .ok i := by
    apply fetch_of_decode hframes hcurrent hdecode
    rw [← ho]
    intro feature hfeature
    cases hfeature
  obtain ⟨n, hpoised, hstep⟩ := step_of_fetch hfetch hframes hfounded hactive
  have hdepth : n.depth = m.depth := by
    unfold depth
    rw [hpoised.turn.frames_eq, hframes]
    rfl
  have hinvoke := hpoised.turn.invoke_named hlinked hcallee hkind hunpack
  have hcall : step m = proceed (Machine.call (.method index)) n := by
    rw [hstep, ← ho, ← proceed_congr hinvoke]
    rfl
  have hbegins := hpoised.turn.call_begins hcallee hcode
  rw [hdepth, hpoised.same.stack_eq] at hbegins
  unfold Ends
  rw [hcall]
  refine hbegins.bind ?_
  intro _ m' hend
  obtain ⟨henough, hlt, hbegun⟩ := hend
  refine Ends.pure ⟨rfl, henough, hlt, ?_⟩
  obtain ⟨hkeeps, hentered, hoperands, hheap, hconsole⟩ := hbegun
  rw [hpoised.same.stack_eq, hpoised.turn.frames_eq, hnext] at hentered
  exact {
    program_eq := hkeeps.program_eq.trans hpoised.program_eq
    bridge_eq := hkeeps.bridge_eq.trans hpoised.bridge_eq
    statics_eq := hkeeps.statics_eq.trans hpoised.statics_eq
    entered := hentered
    operands_eq := hoperands
    heap_eq := hheap.trans hpoised.same.heap_eq
    console_eq := hconsole.trans hpoised.same.console_eq }

/-- Static and special calls reach the method that they name.  For every
method of the image with code there are bytes that any assembler with the
layout of the configuration adds for a call of it, and finished code has them
where the call was written.  When the next bytes of the current method are
these, the step stops if there are fewer operands than the method takes, or
else if the greatest number of calls is active.  Otherwise a call of this
method begins: its position is the start, its first local variables are the
arguments in the order in which they were pushed, and the others are null.
The arguments are gone from the stack, and the caller will go on behind the
instruction. -/
theorem call_reaches_method (hm : InRun config image m)
    (hcallee : image.methods[index]? = some callee)
    (hcode : callee.isNative = false) (hkind : kind ≠ .virtual) :
    ∃ bytes,
      (∀ a : Assembler, a.layout = config.native.layout →
        a.invoke (.index (.invoke kind)) callee.ref =
          .ok (a.add (.bytes bytes))) ∧
      (∀ ds c code q, assembleFrom (.empty config.native.layout) ds = .ok c →
        c.finish = .ok code →
        StandsAt (.empty config.native.layout) ds
          (.invoke (.index (.invoke kind)) callee.ref) q →
        Holds code q bytes) ∧
      ∀ f callers code, m.frames = f :: callers →
        (Program.load config image).codeOf f.method = .ok code →
        Holds code f.pc bytes →
        (m.store.stack.available < callee.args.toNat →
          ∃ m', step m = .error .stackUnderflow m') ∧
        (callee.args.toNat ≤ m.store.stack.available →
          m.depth = config.maxCallDepth →
          ∃ m', step m =
            .error (.callDepthExceeded config.maxCallDepth) m') ∧
        (callee.args.toNat ≤ m.store.stack.available →
          m.depth ≠ config.maxCallDepth →
          ∃ m', step m = .ok .running m' ∧
            Begun index callee ({ f with pc := f.pc + 3 } :: callers)
              m m') := by
  obtain ⟨hfounded, hactive⟩ := hm.invariant
  obtain ⟨m0, -, -, hrests, -⟩ := hm
  have hvalid := Config.valid_of_check hrests.checked.1
  obtain ⟨packed, hpack⟩ := hrests.wellFormed.pack_ok hvalid hcallee
  have hunpack := RefLayout.unpack_pack hvalid.methodBits_le hpack
  refine ⟨(Opcode.index (.invoke kind)).byte :: bytesOfShort packed,
    ?_, ?_, ?_⟩
  · intro a ha
    exact Assembler.invoke_eq (ha ▸ hpack)
  · intro ds c code q hrun hfinish hstands
    obtain ⟨bytes, hbytes, hholds⟩ :=
      hstands.holds hrun hfinish (item?_invoke hpack)
    cases hbytes
    exact hholds
  · intro f callers code hframes hcurrent hholds
    have hends := step_named hfounded hactive hrests.wellFormed.linked hcallee
      hcode hkind hunpack hframes hcurrent hholds
    have hdepth : m.depth ≤ config.maxCallDepth := hactive.depth_le
    cases hstep : step m with
    | ok flow m' =>
      obtain ⟨rfl, henough, hlt, hbegun⟩ := hends.of_ok hstep
      refine ⟨fun hfew => ?_, fun _ hfull => ?_, fun _ _ => ⟨m', rfl, hbegun⟩⟩
      · exact absurd henough (Nat.not_le.2 hfew)
      · exact absurd hlt (Nat.not_lt.2 (Nat.le_of_eq hfull.symm))
    | error e m' =>
      rcases hends.of_error hstep with ⟨hfew, rfl⟩ | ⟨henough, hfull, rfl⟩
      · have hnot : ¬ callee.args.toNat ≤ m.store.stack.available :=
          Nat.not_le.2 hfew
        exact ⟨fun _ => ⟨m', rfl⟩, fun h => absurd h hnot,
          fun h => absurd h hnot⟩
      · refine ⟨fun hfew => ?_, fun _ _ => ⟨m', rfl⟩, fun _ hroom => ?_⟩
        · exact absurd henough (Nat.not_le.2 hfew)
        · exact absurd (Nat.le_antisymm hdepth hfull) hroom

/-- The entry point of `nestedCall`, as it is written. -/
def nestedCaller : List Directive :=
  [.pushInt 5, .invoke (.index (.invoke .static)) ⟨0, 1⟩,
    .op (.plain (.returnValue .int))]

/-- The call in it is one of the other method, with the number that has been
pushed. -/
theorem call_reaches_method_nestedCall :
    ∃ (m m' : Machine Unit) (g caller : Frame),
      InRun .unix nestedCall m ∧ step m = .ok .running m' ∧
      m'.frames = [g, caller] ∧ g.method = 1 ∧ g.pc = 0 ∧ caller.pc = 4 ∧
      g.locals.toList = m.store.stack.operands := by
  have htest : (fresh? .unix nestedCall).any (fun m0 =>
      (paused? 1 nestedCall.main m0).any fun m =>
        m.frames.map (fun f => (f.method, f.pc)) == [(0, 1)] &&
          m.store.stack.available == 1) = true := by
    decide +kernel
  simp only [Option.any_eq_true, Bool.and_eq_true, beq_iff_eq] at htest
  obtain ⟨m0, hfresh, m, hpaused, hframes, havailable⟩ := htest
  have hm : InRun .unix nestedCall m :=
    ⟨m0, 1, _, rests_of_fresh hfresh, run_of_paused hpaused⟩
  have hrun : ∃ c, assembleFrom (.empty .standard) nestedCaller = .ok c ∧
      c.finish = .ok #[0x08, 0xb8, 0x00, 0x01, 0xac] := ⟨_, rfl, rfl⟩
  have hstands : StandsAt (.empty .standard) nestedCaller
      (.invoke (.index (.invoke .static)) ⟨0, 1⟩) 1 :=
    ⟨[.pushInt 5], _, [.op (.plain (.returnValue .int))], _, rfl, rfl, rfl, rfl⟩
  have hcurrent : (Program.load .unix nestedCall).codeOf 0 =
      .ok #[0x08, 0xb8, 0x00, 0x01, 0xac] := by decide +kernel
  have hcallee : nestedCall.methods[1]? =
      some ⟨0, 1, 1, 1, 1, .bytecode 5 2⟩ := rfl
  obtain ⟨f, hf, hplace⟩ := List.map_eq_singleton_iff.1 hframes
  obtain ⟨hmethod, hpc⟩ := Prod.mk.inj hplace
  obtain ⟨c, hassemble, hfinish⟩ := hrun
  have hkind : InvokeKind.static ≠ .virtual := by decide
  obtain ⟨bytes, -, hwritten, hsteps⟩ :=
    call_reaches_method hm hcallee rfl hkind
  have hholds := hwritten _ c _ 1 hassemble hfinish hstands
  obtain ⟨-, -, hbegins⟩ := hsteps f [] _ hf (hmethod ▸ hcurrent) (hpc ▸ hholds)
  have hdepth : m.depth = 1 := by rw [depth, hf]; rfl
  obtain ⟨m', hstep, hbegun⟩ :=
    hbegins (by rw [havailable]; decide) (by rw [hdepth]; decide)
  obtain ⟨rest, args, g, hoperands, hargs, -, hframes', hindex, hstart,
    hlocals⟩ := hbegun.entered
  -- The callee takes the only operand and has no other local variable.
  have hone : args.length = 1 := hargs
  have hlength := m.store.stack.length_operands
  rw [hoperands, havailable, List.length_append, hone] at hlength
  have hrest : rest = [] := List.length_eq_zero_iff.1 (by omega)
  refine ⟨m, m', g, _, hm, hstep, hframes', hindex, hstart, by rw [hpc], ?_⟩
  rw [hlocals, hoperands, hrest, hone, List.nil_append]
  exact List.append_nil args

end Machine

end SlotVm
