import SlotVm.Machine.Run
import SlotVm.Proofs.Machine.Execute

/-!
# What one step does

A step fetches the instruction at the position of the current call, puts the
position behind it, and runs its operation.  `Machine.Poised` relates the
machine before a step to the machine that runs the operation.

An instruction is fetched from the code of the current call
(`fetch_of_decode`, `decode_of_fetch`).  `step_executes` says which operation
a step runs, and from which machine.
`step_ends` is the statement about a step.  It either has an effect
(`Machine.StepsTo`) or stops at a fault (`Machine.FaultsIn`).  Two groups of
lemmas follow from it.

* Faults.  `Machine.Raises` lists, fault by fault, what a machine is like
  whose step stops at it (`step_error`).
* From step to step.  Both invariants are kept, also by a step that stops at
  a fault, and the last step of a run leaves no frame.
-/

namespace SlotVm

/-- A method with code has its code in the program. -/
theorem Program.Valid.codeOf {p : Program} (hp : p.Valid) {index : Nat}
    {method : MethodDescriptor} {address len : UInt32}
    (hmethod : p.image.methods[index]? = some method)
    (hbody : method.body = .bytecode address len) :
    ∃ code, p.codeOf index = .ok code ∧ code.size = len.toNat := by
  obtain ⟨code, hcode, hsize⟩ :=
    hp.image.codeOf_ok (Array.mem_of_getElem? hmethod) hbody
  refine ⟨code, ?_, hsize⟩
  unfold Program.codeOf
  rw [p.bodies_eq, Array.getElem?_map, hmethod]
  simp only [Option.map_some, Image.methodCode, hcode]

namespace Machine

open SlotVm.Action Store

variable {δ : Type} {p : Program} {i : Instruction} {m m' n : Machine δ}
variable {f : Frame} {callers : List Frame} {flow : Flow} {e : Fault}

/-! ## Fetching -/

/-- The machine `n` runs the operation that `m` has fetched. -/
structure Poised (p : Program) (i : Instruction) (f : Frame)
    (callers : List Frame) (m n : Machine δ) : Prop extends Keeps m n where
  fetched : m.fetch = .ok i
  frames_eq : m.frames = f :: callers
  same : Store.Same m.store n.store
  turn : Turn p { f with pc := i.next } callers n
  leads : ∀ position, i.operation.Leads position →
    Frame.Fits p.image { f with pc := position }

/-- The next step runs the operation. -/
def Executes (m : Machine δ) (o : Operation) : Prop :=
  ∃ i, m.fetch = .ok i ∧ i.operation = o

instance {o : Operation} : Decidable (m.Executes o) :=
  decidable_of_iff (m.fetch.toOption.any (·.operation = o) = true) <| by
    unfold Executes
    cases m.fetch with
    | ok i => simp [Except.toOption]
    | error e => simp [Except.toOption]

/-- A machine runs one operation only. -/
theorem Executes.unique {o o' : Operation} (h : m.Executes o)
    (h' : m.Executes o') : o = o' := by
  obtain ⟨i, hi, rfl⟩ := h
  obtain ⟨i', hi', rfl⟩ := h'
  cases hi.symm.trans hi'
  rfl

/-- The instruction at the position of the current call cannot be decoded,
for this reason. -/
def Undecodable (m : Machine δ) (e : Fault) : Prop :=
  ∃ f code, m.frame = .ok f ∧ m.program.codeOf f.method = .ok code ∧
    Instruction.decode code f.pc = .error e

/-- An instruction of the current method is fetched if it decodes and the
profile has what it needs. -/
theorem fetch_of_decode {code : Array UInt8} (hframes : m.frames = f :: callers)
    (hcode : m.program.codeOf f.method = .ok code)
    (hdecode : Instruction.decode code f.pc = .ok i)
    (hfeature : ∀ feature, i.operation.opcode.feature? = some feature →
      feature.isEnabled m.program.config.features = true) :
    m.fetch = .ok i := by
  have hframe := frame_of_frames hframes
  unfold Machine.fetch
  simp only [hframe, hcode, hdecode, bind, Except.bind]
  cases hneeds : i.operation.opcode.feature? with
  | none => rfl
  | some feature => simp only [hfeature feature hneeds, if_true]; rfl

/-- What has been fetched is what the code at the position decodes to. -/
theorem decode_of_fetch {code : Array UInt8} (hframes : m.frames = f :: callers)
    (hcode : m.program.codeOf f.method = .ok code) (hfetch : m.fetch = .ok i) :
    Instruction.decode code f.pc = .ok i := by
  have hframe := frame_of_frames hframes
  rw [Machine.fetch, bind_of_ok hframe, bind_of_ok hcode] at hfetch
  obtain ⟨i', hdecode, hresult⟩ := bind_eq_ok hfetch
  simp only at hresult
  split at hresult
  · cases hresult
    exact hdecode
  · split at hresult
    · cases hresult
      exact hdecode
    · cases hresult

/-- The code of a call has a size of 32 bits. -/
theorem Turn.code_size_lt {code : Array UInt8} (h : Turn p f callers m)
    (hcode : p.codeOf f.method = .ok code) : code.size < 4294967296 := by
  obtain ⟨method, address, len, hmethod, hbody, -⟩ :=
    h.active.fits f (by rw [h.frames_eq]; exact List.mem_cons_self)
  obtain ⟨code', hcode', hsize⟩ := h.founded.valid.codeOf hmethod hbody
  cases hcode.symm.trans hcode'
  rw [hsize]
  exact len.toNat_lt

/-- A fetch fails because the instruction cannot be decoded, or because the
profile does not have what it needs. -/
theorem Turn.fetch (h : Turn p f callers m) :
    Gives m.fetch
      (fun i => (∀ position, position = i.next ∨ i.operation.Leads position →
          Frame.Fits p.image { f with pc := position }) ∧
        (i.operation.opcode.feature? = some .float →
          p.config.features.float = true))
      (fun e => m.Undecodable e ∨
        ∃ byte feature, e = .unsupportedOpcode byte feature) := by
  obtain rfl := h.founded.program_eq
  have hframe := frame_of_frames h.frames_eq
  obtain ⟨method, address, len, hmethod, hbody, hlocals, -⟩ :=
    h.active.fits f (by rw [h.frames_eq]; exact List.mem_cons_self)
  obtain ⟨code, hcode, hsize⟩ := h.founded.valid.codeOf hmethod hbody
  unfold Machine.fetch
  simp only [hframe, hcode, bind, Except.bind]
  cases hdecode : Instruction.decode code f.pc with
  | error e => exact .inl ⟨f, code, hframe, hcode, hdecode⟩
  | ok i =>
    obtain ⟨-, hnext, hleads⟩ := Instruction.decode_ok hdecode
    have hfits : ∀ position, position = i.next ∨ i.operation.Leads position →
        Frame.Fits m.program.image { f with pc := position } := by
      intro position hend
      rcases hend with rfl | hlead
      · exact ⟨method, address, len, hmethod, hbody, hlocals, hsize ▸ hnext⟩
      · have hle := Nat.le_of_lt (hleads position hlead)
        exact ⟨method, address, len, hmethod, hbody, hlocals, hsize ▸ hle⟩
    simp only
    cases hfeature : i.operation.opcode.feature? with
    | none =>
      refine ⟨hfits, ?_⟩
      rw [hfeature]
      intro hfloat
      cases hfloat
    | some feature =>
      simp only
      split
      · rename_i henabled
        refine ⟨hfits, ?_⟩
        intro hfloat
        cases hfeature.symm.trans hfloat
        exact henabled
      · exact .inr ⟨_, _, rfl⟩

/-- Reporting an instruction changes the log at most. -/
theorem Turn.traceStep (h : Turn p f callers m) (i : Instruction)
    {fail : Fault → Machine δ → Prop} :
    Ends (Machine.traceStep i) m
      (fun _ u => ∃ t, u = { m with store := t } ∧ Same m.store t) fail := by
  refine Ends.bind_ok h.getProgram ?_
  split
  · have hcurrent : ∃ r, m.currentMethod = .ok r := by
      obtain ⟨method, address, len, hmethod, -⟩ :=
        h.active.fits f (by rw [h.frames_eq]; exact List.mem_cons_self)
      rw [← h.founded.program_eq] at hmethod
      refine ⟨method.ref, ?_⟩
      unfold currentMethod Machine.frame
      rw [h.frames_eq]
      simp only [bind, Except.bind, Image.method_of_entry hmethod]
      rfl
    obtain ⟨r, hr⟩ := hcurrent
    refine Ends.bind_ok (lift_of_ok hr) ?_
    exact Ends.bind_ok rfl (record_ends _ _ _)
  · exact ⟨_, rfl, rfl, rfl, rfl⟩

/-- The position of the current call is put behind the instruction. -/
theorem advance_eq (hframes : m.frames = f :: callers) :
    advance i m = .ok () { m with
      steps := m.steps + 1
      frames := { f with pc := i.next } :: callers } := by
  cases m with
  | mk program bridge store frames statics steps =>
    cases hframes
    rfl

/-! ## Steps -/

/-- A step ends with an effect of the operation that it fetches. -/
def StepsTo (p : Program) (m : Machine δ) (flow : Flow) (m' : Machine δ) :
    Prop :=
  ∃ i f callers n, Poised p i f callers m n ∧
    Effect p i.operation { f with pc := i.next } callers n flow m'

/-- A step stops at a fault, of the fetch or of the operation. -/
def FaultsIn (p : Program) (m : Machine δ) (e : Fault) (m' : Machine δ) :
    Prop :=
  (m' = m ∧ m.fetch = .error e ∧
    (m.Undecodable e ∨ ∃ byte feature, e = .unsupportedOpcode byte feature)) ∨
  ∃ i f callers n, Poised p i f callers m n ∧
    Halts p i.operation { f with pc := i.next } n e m'

/-- Putting the position behind the instruction keeps the invariants. -/
theorem Turn.next (h : Turn p f callers m) (hk : Keeps m n)
    (hsame : Store.Same m.store n.store)
    (hnext : n.frames = { f with pc := i.next } :: callers)
    (hfits : Frame.Fits p.image { f with pc := i.next }) :
    Turn p { f with pc := i.next } callers n := by
  have hmem : ∀ g ∈ callers, g ∈ m.frames := by
    rw [h.frames_eq]
    exact fun g hg => List.mem_cons_of_mem _ hg
  have hn : n.Founded p := by
    apply hk.founded h.founded
    · exact h.founded.sound.of_same hsame
    · rw [hsame.stack_eq]
    · rw [hnext, hsame.heap_eq]
      intro g hg
      rcases List.mem_cons.1 hg with rfl | hg
      · intro v hv
        exact h.founded.holds h.frames_eq v hv
      · exact h.founded.locals g (hmem g hg)
  refine ⟨hn, ?_, hnext⟩
  apply h.active.of_bases hn
  · rw [bases_of_frames hnext, bases_of_frames h.frames_eq]
  · rw [hsame.stack_eq]
  · rw [hnext]
    intro g hg
    rcases List.mem_cons.1 hg with rfl | hg
    · exact hfits
    · exact h.active.fits g (hmem g hg)

/-- A step runs the operation that it has fetched, unless the fetch fails. -/
theorem step_executes (hm : m.Founded p) (ha : m.Active p) :
    Ends step m
      (fun flow m' => ∃ i f callers n, Poised p i f callers m n ∧
        (i.operation.opcode.feature? = some .float →
          p.config.features.float = true) ∧
        execute i.operation n = .ok flow m')
      (fun e m' =>
        (m' = m ∧ m.fetch = .error e ∧
          (m.Undecodable e ∨
            ∃ byte feature, e = .unsupportedOpcode byte feature)) ∨
        ∃ i f callers n, Poised p i f callers m n ∧
          (i.operation.opcode.feature? = some .float →
            p.config.features.float = true) ∧
          execute i.operation n = .error e m') := by
  have hpos := ha.depth_pos
  unfold depth at hpos
  cases hframes : m.frames with
  | nil =>
    rw [hframes] at hpos
    cases hpos
  | cons f callers =>
    have hturn : Turn p f callers m := ⟨hm, ha, hframes⟩
    have hfetch : Ends (Action.read fetch) m
        (fun i u => u = m ∧ m.fetch = .ok i)
        (fun e u => u = m ∧ m.fetch = .error e ∧
          (m.Undecodable e ∨
            ∃ byte feature, e = .unsupportedOpcode byte feature)) := by
      apply Ends.read
      · exact fun i hi => ⟨rfl, hi⟩
      · exact fun e he => ⟨rfl, he, hturn.fetch.of_error he⟩
    refine (hfetch.imp_fail fun _ _ => .inl).bind ?_
    intro i u hend
    obtain ⟨rfl, hi⟩ := hend
    obtain ⟨hfits, hfloat⟩ := hturn.fetch.of_ok hi
    refine (hturn.traceStep i).bind ?_
    intro _ w hend
    obtain ⟨t, rfl, hsame⟩ := hend
    have hstart : ({ u with store := t } : Machine δ).frames = f :: callers :=
      hframes
    refine Ends.bind_ok (advance_eq hstart) ?_
    have hpoised : Poised p i f callers u { u with
        store := t
        steps := u.steps + 1
        frames := { f with pc := i.next } :: callers } := {
      program_eq := rfl
      bridge_eq := rfl
      statics_eq := rfl
      fetched := hi
      frames_eq := hframes
      same := hsame
      turn := hturn.next ⟨rfl, rfl, rfl⟩ hsame rfl (hfits _ (.inl rfl))
      leads := fun position hlead => hfits position (.inr hlead) }
    apply Ends.intro
    · exact fun flow m' hexec => ⟨i, f, callers, _, hpoised, hfloat, hexec⟩
    · exact fun e m' hexec => .inr ⟨i, f, callers, _, hpoised, hfloat, hexec⟩

/-- A step that runs an operation ends as the operation does. -/
theorem Executes.step_eq {o : Operation} (ho : m.Executes o)
    (hm : m.Founded p) (ha : m.Active p) :
    ∃ i f callers n, Poised p i f callers m n ∧ step m = execute o n := by
  obtain ⟨i, hi, rfl⟩ := id ho
  have hends := step_executes hm ha
  cases hstep : step m with
  | ok flow m' =>
    obtain ⟨i', f, callers, n, hpoised, -, hexecute⟩ := hends.of_ok hstep
    rw [ho.unique ⟨i', hpoised.fetched, rfl⟩]
    exact ⟨i', f, callers, n, hpoised, hexecute.symm⟩
  | error e m' =>
    rcases hends.of_error hstep with
      ⟨-, hfetch, -⟩ | ⟨i', f, callers, n, hpoised, -, hexecute⟩
    · cases hi.symm.trans hfetch
    · rw [ho.unique ⟨i', hpoised.fetched, rfl⟩]
      exact ⟨i', f, callers, n, hpoised, hexecute.symm⟩

/-- The same for the instruction that has been fetched and the current call. -/
theorem step_of_fetch (hi : m.fetch = .ok i) (hframes : m.frames = f :: callers)
    (hm : m.Founded p) (ha : m.Active p) :
    ∃ n, Poised p i f callers m n ∧ step m = execute i.operation n := by
  have hexecutes : m.Executes i.operation := ⟨i, hi, rfl⟩
  obtain ⟨i', f', callers', n, hpoised, hstep⟩ := hexecutes.step_eq hm ha
  cases hi.symm.trans hpoised.fetched
  cases hframes.symm.trans hpoised.frames_eq
  exact ⟨n, hpoised, hstep⟩

/-- A step that ends with a result has run the operation. -/
theorem Executes.of_step {o : Operation} (ho : m.Executes o)
    (hm : m.Founded p) (ha : m.Active p) (hstep : step m = .ok flow m') :
    ∃ i f callers n, Poised p i f callers m n ∧ execute o n = .ok flow m' := by
  obtain ⟨i, f, callers, n, hpoised, heq⟩ := ho.step_eq hm ha
  exact ⟨i, f, callers, n, hpoised, heq ▸ hstep⟩

/-- Every way in which a step can end. -/
theorem step_ends (hm : m.Founded p) (ha : m.Active p) :
    Ends step m (StepsTo p m) (FaultsIn p m) := by
  apply (step_executes hm ha).mono
  · intro flow m' hend
    obtain ⟨i, f, callers, n, hpoised, hfloat, hexec⟩ := hend
    exact ⟨i, f, callers, n, hpoised,
      (hpoised.turn.execute i.operation hfloat).of_ok hexec⟩
  · intro e m' hend
    rcases hend with hfetch | ⟨i, f, callers, n, hpoised, hfloat, hexec⟩
    · exact .inl hfetch
    · exact .inr ⟨i, f, callers, n, hpoised,
        (hpoised.turn.execute i.operation hfloat).of_error hexec⟩

/-! ## Faults -/

/-- A step of the machine can stop at the fault.  The faults that are left
out of the list are those of any operation. -/
def Raises (p : Program) (m : Machine δ) : Fault → Prop
  | .invalidConfig _ | .io _ | .invalidReference _ => False
  | .invalidImage d =>
      d.OfCode ∧ m.Undecodable (.invalidImage d) ∨
        ∃ typeCode, m.Executes (.byteOperand .newArray typeCode) ∧
          ArrayKind.ofTypeCode? typeCode = none ∧ d = .arrayType typeCode
  | .invalidConstant k =>
      ∃ operand, m.Executes (.byteOperand .loadConstant operand) ∧
        operand.toNat = k ∧ p.image.constants[k]? = none
  | .unknownClass classId => ∃ o, m.Executes o ∧ o.NamesUnknown p classId
  | .slotOutOfBounds .. => ∃ o, m.Executes o ∧ o.isElementAccess = false
  | .stackOverflow _ => ∃ o, m.Executes o ∧ o.opcode.isReturn = false
  | _ => True

/-- Decoding fails because of the code. -/
theorem Undecodable.raises (h : m.Undecodable e) : m.Raises p e := by
  obtain ⟨f, code, hframe, hcode, hdecode⟩ := h
  rcases Instruction.decode_error hdecode with ⟨d, hd, rfl⟩ | ⟨byte, rfl⟩
  · exact .inl ⟨hd, f, code, hframe, hcode, hdecode⟩
  · trivial

theorem Executes.raises {o : Operation} (h : m.Executes o)
    (he : o.MayRaise p e) : m.Raises p e := by
  cases e with
  | invalidImage d =>
    obtain ⟨typeCode, rfl, hcode, hd⟩ := he
    exact .inr ⟨typeCode, h, hcode, hd⟩
  | invalidConstant k =>
    obtain ⟨operand, rfl, hk, hnone⟩ := he
    exact ⟨operand, h, hk, hnone⟩
  | unknownClass classId => exact ⟨o, h, he⟩
  | slotOutOfBounds index len => exact ⟨o, h, he⟩
  | stackOverflow limit => exact ⟨o, h, he⟩
  | invalidConfig d => exact he
  | io text => exact he
  | invalidReference r => exact he
  | _ => trivial

theorem step_error (hm : m.Founded p) (ha : m.Active p)
    (h : step m = .error e m') : m.Raises p e := by
  rcases (step_ends hm ha).of_error h with
    ⟨-, -, hundecodable | ⟨byte, feature, rfl⟩⟩ |
      ⟨i, f, callers, n, hpoised, hhalts⟩
  · exact hundecodable.raises
  · trivial
  · have hexecutes : m.Executes i.operation := ⟨i, hpoised.fetched, rfl⟩
    exact hexecutes.raises hhalts.mayRaise

/-! ## From step to step -/

theorem StepsTo.founded (h : StepsTo p m flow m') : m'.Founded p := by
  obtain ⟨i, f, callers, n, hpoised, heffect⟩ := h
  have hturn := hpoised.turn
  cases heffect with
  | stays h => exact h.founded hturn.founded hturn.frames_eq
  | calls h => exact h.founded hturn.founded
  | returns h =>
    exact h.founded hturn.founded hturn.frames_eq
      (h.floor_le hturn.active hturn.frames_eq)

theorem StepsTo.active (h : StepsTo p m .running m') : m'.Active p := by
  have hm' := h.founded
  obtain ⟨i, f, callers, n, hpoised, heffect⟩ := h
  have hturn := hpoised.turn
  cases heffect with
  | stays h =>
    exact h.active hturn.active hm' hturn.frames_eq hpoised.leads
  | calls h => exact h.active hturn.active hm'
  | returns h =>
    apply h.active hturn.active hm' hturn.frames_eq
    intro heq
    obtain rfl := heq
    obtain ⟨value, residue, -, -, -, -, hflow⟩ := h.returned
    cases hflow

/-- The last step of a run leaves no frame, and all of the stack is in
reach. -/
theorem StepsTo.finished {value : Option Value}
    (h : StepsTo p m (.finished value) m') :
    m'.frames = [] ∧ m'.store.stack.floor = 0 := by
  obtain ⟨i, f, callers, n, hpoised, heffect⟩ := h
  cases heffect with
  | returns h =>
    obtain ⟨value', residue, -, -, -, -, hflow⟩ := h.returned
    cases callers with
    | nil => exact ⟨h.frames_eq, h.floor_eq⟩
    | cons caller rest => cases hflow

theorem FaultsIn.founded (h : FaultsIn p m e m') (hm : m.Founded p) :
    m'.Founded p := by
  rcases h with ⟨rfl, -⟩ | ⟨i, f, callers, n, hpoised, hhalts⟩
  · exact hm
  · exact hhalts.founded hpoised.turn.founded hpoised.turn.frames_eq

theorem FaultsIn.active (h : FaultsIn p m e m') (hm : m.Founded p)
    (ha : m.Active p) : m'.Active p := by
  have hm' := h.founded hm
  rcases h with ⟨rfl, -⟩ | ⟨i, f, callers, n, hpoised, hhalts⟩
  · exact ha
  · exact hhalts.active hpoised.turn.active hm'

end Machine

end SlotVm
