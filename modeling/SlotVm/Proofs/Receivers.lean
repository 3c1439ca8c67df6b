import SlotVm.Proofs.Ancestors
import SlotVm.Proofs.Machine.Session

/-!
# Receivers of virtual calls

A virtual call looks at the operand in the place of the receiver, which it
finds by the number of arguments of the method that the instruction names.
`Machine.virtual_call_receiver` says what is known of a call that begins:
the operand is not null, and if it refers to an instance, the class of the
instance is the named class or derives from it, and the method is the one of
that class.

Two things are not known.  An operand that is no instance at all, a number,
a string, an array or a native object, is let through to the method of the
named class.  And the arguments are taken by their number in the method that
is called, so the operand is the first local variable only if both methods
take as many.

The proof follows the instruction: `receiverClass?_ends` for the class of
the operand, `dispatch_ends` for the choice of the method,
`Turn.call_enters` for the frame, and `Turn.invoke_virtual` for all three.
For a method with code, the frame comes from the exact account of how a call
begins, or why it does not (`Turn.call_begins`).
-/

namespace SlotVm

/-- Class of the instance that a value refers to, if it does. -/
def Heap.classOf? (h : Heap) : Value → Option UInt16
  | .ref handle => h.objects[handle.toNat]?.bind (·.kind.classId?)
  | _ => none

namespace Machine

open SlotVm.Action Store

variable {δ : Type} {p : Program} {m m' n : Machine δ} {s : Store δ}
variable {f : Frame} {callers : List Frame} {v : Value}

/-! ## The choice of the method -/

/-- The class of a receiver is found exactly for an instance. -/
theorem receiverClass?_ends (s : Store δ) (v : Value) :
    Ends (receiverClass? v) s
      (fun found t => t = s ∧ v.isNull = false ∧ found = s.heap.classOf? v)
      (fun _ _ => True) := by
  cases v with
  | null | zero => exact Ends.throw trivial
  | int | float | const => exact Ends.pure ⟨rfl, rfl, rfl⟩
  | ref handle =>
    have hheader : Ends (Store.readHeap (δ := δ) (·.header handle)) s
        (fun entry t => t = s ∧ s.heap.objects[handle.toNat]? = some entry)
        (fun _ _ => True) :=
      Ends.read (fun _ h => ⟨rfl, Heap.header_ok h⟩) fun _ _ => trivial
    refine hheader.bind ?_
    rintro entry _ ⟨rfl, hentry⟩
    refine Ends.pure ⟨rfl, rfl, ?_⟩
    rw [Heap.classOf?, hentry]
    rfl

variable {r : MethodRef} {index : Nat} {declared : MethodDescriptor}

/-- What a virtual call finds: the receiver `v` and the method `nearest`.
`declared` is the method that is named. -/
structure Dispatched (p : Program) (s : Store δ) (r : MethodRef)
    (index : Nat) (declared : MethodDescriptor) (nearest : Resolved)
    (v : Value) : Prop where
  receiver : s.stack.peek (declared.args.toNat - 1) = .ok v
  notNull : v.isNull = false
  ofInstance : ∀ c, s.heap.classOf? v = some c →
    p.image.Derives c r.classId ∧
      p.image.resolve p.config.native ⟨c, r.methodId⟩ true = .ok nearest
  ofOther : s.heap.classOf? v = none → nearest = .method index

theorem dispatch_ends (s : Store δ)
    (hfound : p.image.resolve p.config.native r true = .ok (.method index))
    (hdeclared : p.image.methods[index]? = some declared)
    (hargs : 0 < declared.args.toNat) :
    Ends (dispatch p r (.method index)) s
      (fun nearest t => t = s ∧
        ∃ v, Dispatched p s r index declared nearest v)
      (fun _ _ => True) := by
  have hpeek : Ends (Store.peek (declared.args.toNat - 1)) s
      (fun v t => t = s ∧ s.stack.peek (declared.args.toNat - 1) = .ok v)
      (fun _ _ => True) :=
    Ends.read (fun _ h => ⟨rfl, h⟩) fun _ _ => trivial
  refine Ends.bind_ok (lift_of_ok (Image.method_of_entry hdeclared)) ?_
  rw [if_neg (by omega)]
  refine hpeek.bind ?_
  rintro v _ ⟨rfl, hv⟩
  rename_i s
  refine (receiverClass?_ends s v).bind ?_
  rintro found _ ⟨rfl, hnull, hclass⟩
  rename_i s
  cases found with
  | none =>
    refine Ends.pure ⟨rfl, v, hv, hnull, ?_, fun _ => rfl⟩
    intro c hc
    cases hclass.trans hc
  | some c =>
    have hother : s.heap.classOf? v ≠ none := by
      rw [← hclass]
      exact Option.some_ne_none c
    simp only
    split
    · rename_i hsame
      refine Ends.pure ⟨rfl, v, hv, hnull, ?_, fun h => absurd h hother⟩
      intro c' hc'
      cases hclass.trans hc'
      rw [hsame]
      exact ⟨.refl, hfound⟩
    · split
      · rename_i hsubclass
        refine Ends.lift (fun nearest hnearest => ?_) fun _ _ => trivial
        refine ⟨rfl, v, hv, hnull, ?_, fun h => absurd h hother⟩
        intro c' hc'
        cases hclass.trans hc'
        exact ⟨Image.derives_of_meets hsubclass, hnearest⟩
      · exact Ends.throw trivial

/-- The method that is called is one of the image, or a native one. -/
theorem Dispatched.present {nearest : Resolved}
    (h : Dispatched p s r index declared nearest v)
    (hdeclared : p.image.methods[index]? = some declared) :
    nearest.Present p.image := by
  cases hclass : s.heap.classOf? v with
  | none =>
    rw [h.ofOther hclass]
    exact ⟨declared, hdeclared⟩
  | some c => exact Image.resolve_present (h.ofInstance c hclass).2

/-! ## The frame -/

/-- The call of a method with code begins, above the frames `callers`.  Its
arguments are the last operands.  They become its first local variables and
leave the stack, the other local variables are nulls, and nothing else
changes. -/
structure Begun (index : Nat) (callee : MethodDescriptor)
    (callers : List Frame) (m m' : Machine δ) : Prop extends Keeps m m' where
  entered : ∃ rest args g, m.store.stack.operands = rest ++ args ∧
    args.length = callee.args.toNat ∧
    m'.store.stack.values.toList = m.store.stack.below ++ rest ∧
    m'.frames = g :: callers ∧ g.method = index ∧ g.pc = 0 ∧
    g.locals.toList = args ++ List.replicate
      (max callee.maxLocals.toNat callee.args.toNat - args.length) .null
  operands_eq : m'.store.stack.operands = []
  heap_eq : m'.store.heap = m.store.heap
  console_eq : m'.store.console = m.store.console

/-- The call of a method with code begins.  Its arguments are the last
operands. -/
structure Entered (p : Program) (n : Machine δ) (index : Nat)
    (callee : MethodDescriptor) (g : Frame) (m' : Machine δ) : Prop where
  method : p.image.methods[index]? = some callee
  frames_eq : m'.frames = g :: n.frames
  index_eq : g.method = index
  locals : ∃ below args, n.store.stack.operands = below ++ args ∧
    args.length = callee.args.toNat ∧ args <+: g.locals.toList
  heap_eq : m'.store.heap = n.store.heap

/-- The first local variable of the frame is the operand in the place that
the number of arguments of its method gives. -/
theorem Entered.first_local {callee : MethodDescriptor} {g : Frame}
    (h : Entered p n index callee g m') (hargs : 0 < callee.args.toNat)
    (hpeek : n.store.stack.peek (callee.args.toNat - 1) = .ok v) :
    g.locals[0]? = some v := by
  obtain ⟨below, args, hoperands, hcount, tail, hlocals⟩ := h.locals
  rw [Stack.peek_eq, hoperands] at hpeek
  cases args with
  | nil =>
    rw [List.length_nil] at hcount
    omega
  | cons first rest =>
    rw [List.length_cons] at hcount
    have hplace : (below ++ first :: rest).reverse[callee.args.toNat - 1]? =
        some first := by
      have hlast : callee.args.toNat - 1 = rest.reverse.length := by
        rw [List.length_reverse]
        omega
      rw [List.reverse_append, List.reverse_cons, List.append_assoc, hlast,
        List.getElem?_append_right (Nat.le_refl _), Nat.sub_self]
      rfl
    rw [hplace] at hpeek
    cases hpeek
    rw [← Array.getElem?_toList, ← hlocals]
    rfl

namespace Turn

/-- A call of a method with code takes its arguments and begins, unless there
are too few operands or, if there are enough, too many calls. -/
theorem call_begins (h : Turn p f callers n) {callee : MethodDescriptor}
    (hcallee : p.image.methods[index]? = some callee)
    (hcode : callee.isNative = false) :
    Ends (Machine.call (.method index)) n
      (fun _ m' => callee.args.toNat ≤ n.store.stack.available ∧
        n.depth < p.config.maxCallDepth ∧ Begun index callee n.frames n m')
      (fun e _ =>
        n.store.stack.available < callee.args.toNat ∧ e = .stackUnderflow ∨
        callee.args.toNat ≤ n.store.stack.available ∧
          p.config.maxCallDepth ≤ n.depth ∧
          e = .callDepthExceeded p.config.maxCallDepth) := by
  obtain rfl := h.founded.program_eq
  have hcount := n.store.stack.length_operands
  have hpop : Ends (Machine.onStore
        (Store.onStack (Stack.popN callee.args.toNat))) n
      (fun args u => ∃ stack,
        u = { n with store := { n.store with stack } } ∧
        n.store.stack.Above stack ∧ args.size = callee.args.toNat ∧
        n.store.stack.operands = stack.operands ++ args.toList)
      (fun e _ => n.store.stack.available < callee.args.toNat ∧
        e = .stackUnderflow) := by
    apply onStore_ends
    apply Ends.onPart
    apply (Stack.popN_ends h.founded.sound.bounded callee.args.toNat).mono
    · exact fun args stack hend => ⟨stack, rfl, hend⟩
    · exact fun e stack hend => ⟨hcount ▸ hend.2.1, hend.2.2⟩
  refine Ends.bind_ok h.getProgram ?_
  refine Ends.bind_ok (lift_of_ok (Image.method_of_entry hcallee)) ?_
  simp only [hcode, Bool.false_eq_true, if_false]
  refine (hpop.imp_fail fun _ _ => .inl).bind ?_
  intro args u hend
  obtain ⟨stack, rfl, habove, hargs, hoperands⟩ := hend
  have henough : callee.args.toNat ≤ n.store.stack.available := by
    have htaken : args.toList.length = callee.args.toNat := by simpa using hargs
    rw [← hcount, hoperands, List.length_append]
    omega
  refine (traceCall callee.ref).bind ?_
  intro _ w hend
  obtain ⟨t, rfl, hsame⟩ := hend
  refine Ends.bind_ok rfl ?_
  have hvalues : t.stack.values.toList =
      n.store.stack.below ++ stack.operands := by
    rw [hsame.stack_eq, ← habove.below_eq]
    exact (Stack.below_append_operands stack).symm
  unfold Ends Machine.enter
  by_cases hdepth : n.frames.length < n.program.config.maxCallDepth
  · simp only [if_pos hdepth]
    refine ⟨henough, hdepth, {
      program_eq := rfl
      bridge_eq := rfl
      statics_eq := rfl
      entered := ⟨stack.operands, args.toList, _, hoperands,
        hargs, hvalues, rfl, rfl, rfl, ?_⟩
      operands_eq := ?_
      heap_eq := hsame.heap_eq
      console_eq := hsame.console_eq }⟩
    · simp only [Frame.enter, Array.toList_append, Array.toList_replicate,
        Array.length_toList, MethodDescriptor.frameLocals]
    · -- the floor of the call is the size of what is left
      show t.stack.values.toList.drop t.stack.values.size = []
      rw [← Array.length_toList, List.drop_length]
  · simp only [if_neg hdepth]
    exact .inr ⟨henough, Nat.le_of_not_lt hdepth, trivial⟩

/-- What is known of the frame then. -/
theorem call_code (h : Turn p f callers n) {callee : MethodDescriptor}
    (hcallee : p.image.methods[index]? = some callee)
    (hcode : callee.isNative = false) :
    Ends (Machine.call (.method index)) n
      (fun _ m' => ∃ g, Entered p n index callee g m')
      (fun e _ => e = .stackUnderflow ∨
        e = .callDepthExceeded p.config.maxCallDepth) := by
  apply (h.call_begins hcallee hcode).mono
  · intro _ m' hend
    obtain ⟨-, -, hbegun⟩ := hend
    obtain ⟨rest, args, g, hoperands, hargs, -, hframes, hindex, -, hlocals⟩ :=
      hbegun.entered
    have hprefix : args <+: g.locals.toList := ⟨_, hlocals.symm⟩
    exact ⟨g, hcallee, hframes, hindex, ⟨rest, args, hoperands, hargs, hprefix⟩,
      hbegun.heap_eq⟩
  · intro e _ hend
    rcases hend with ⟨-, he⟩ | ⟨-, -, he⟩
    · exact .inl he
    · exact .inr he

/-- A call of a method that a native family implements. -/
theorem call_native (h : Turn p f callers n) {callee : MethodDescriptor}
    (hcallee : p.image.methods[index]? = some callee)
    (hnative : callee.isNative = true) :
    Machine.call (.method index) n = Machine.callNative callee.ref n := by
  rw [Machine.call, seq_of_ok h.getProgram,
    seq_of_ok (lift_of_ok (Image.method_of_entry hcallee)), if_pos hnative]

/-- A method that a lookup has found is called with a frame of its own, or
the frames stay as they are. -/
theorem call_enters (h : Turn p f callers n) {found : Resolved}
    (hfound : found.Present p.image) :
    Ends (Machine.call found) n
      (fun _ m' => m'.frames = n.frames ∨ ∃ index callee g,
        found = .method index ∧ Entered p n index callee g m')
      (fun _ _ => True) := by
  have hnative : ∀ r, Ends (Machine.callNative r) n
      (fun _ m' => m'.frames = n.frames ∨ ∃ index callee g,
        found = .method index ∧ Entered p n index callee g m')
      (fun _ _ => True) := by
    intro r
    refine Ends.bind_ok rfl (onStore_ends ?_)
    exact Ends.intro (fun _ _ _ => .inl rfl) fun _ _ _ => trivial
  cases found with
  | native r => exact hnative r
  | method index =>
    obtain ⟨callee, hcallee⟩ := hfound
    cases hcode : callee.isNative with
    | true =>
      unfold Ends
      rw [h.call_native hcallee hcode]
      exact hnative callee.ref
    | false =>
      apply (h.call_code hcallee hcode).mono
      · rintro _ m' ⟨g, hentered⟩
        exact .inr ⟨index, callee, g, rfl, hentered⟩
      · exact fun _ _ _ => trivial

/-- A virtual call of a method of the image. -/
theorem invoke_virtual (h : Turn p f callers n)
    (hinherit : p.config.features.inheritance = true) {raw : UInt16}
    (hr : p.config.native.layout.unpack raw = r)
    (hclass : ¬ p.config.native.Contains r.classId)
    (hfound : p.image.resolve p.config.native r true = .ok (.method index))
    (hdeclared : p.image.methods[index]? = some declared)
    (hargs : 0 < declared.args.toNat) :
    Ends (Machine.invoke .virtual raw) n
      (fun _ m' => m'.frames.length = n.frames.length ∨
        ∃ nearest callee g v,
          Dispatched p n.store r index declared (.method nearest) v ∧
          Entered p n nearest callee g m')
      (fun _ _ => True) := by
  refine Ends.bind_ok h.getProgram ?_
  simp only [hr, if_neg hclass, hinherit, and_self, if_true]
  refine Ends.bind_ok (lift_of_ok hfound) ?_
  have hdispatch : Ends (Machine.onStore (dispatch p r (.method index))) n
      (fun nearest u => u = n ∧
        ∃ v, Dispatched p n.store r index declared nearest v)
      (fun _ _ => True) := by
    apply onStore_ends
    apply (dispatch_ends n.store hfound hdeclared hargs).imp
    rintro nearest _ ⟨rfl, hv⟩
    exact ⟨rfl, hv⟩
  refine hdispatch.bind ?_
  intro nearest u hend
  obtain ⟨rfl, v, hv⟩ := hend
  apply (h.call_enters (hv.present hdeclared)).imp
  intro _ m' hend
  rcases hend with hsame | ⟨nearest, callee, g, rfl, hentered⟩
  · exact .inl (congrArg List.length hsame)
  · exact .inr ⟨nearest, callee, g, v, hv, hentered⟩

end Turn

/-! ## Virtual calls -/

/-- An invoke instruction does nothing but the call. -/
theorem invoke_of_execute {kind : InvokeKind} {raw : UInt16} {flow : Flow}
    (h : execute (.index (.invoke kind) raw) n = .ok flow m') :
    Machine.invoke kind raw n = .ok () m' := by
  obtain ⟨p, u, hprogram, hproceed⟩ := seq_eq_ok h
  cases hprogram
  exact proceed_eq_ok hproceed

variable {config : Config} {image : Image}

/-- What is known of the receiver `v` of a virtual call of a method of the
image: it is not null, and if it is an instance, its class is the named one
or derives from it and the frame is of the method of that class.  If it is no
instance, the frame is of the method of the named class. -/
theorem virtual_call_receiver {raw : UInt16}
    (hinherit : config.features.inheritance = true)
    (hm : InRun config image m)
    (hexecutes : m.Executes (.index (.invoke .virtual) raw))
    (hr : config.native.layout.unpack raw = r)
    (hclass : ¬ config.native.Contains r.classId)
    (hfound : image.resolve config.native r true = .ok (.method index))
    (hdeclared : image.methods[index]? = some declared)
    (hargs : 0 < declared.args.toNat)
    (hstep : step m = .ok .running m') (hdepth : m.depth < m'.depth) :
    ∃ g rest callee v, m'.frames = g :: rest ∧
      image.methods[g.method]? = some callee ∧
      m.store.stack.peek (declared.args.toNat - 1) = .ok v ∧
      v.isNull = false ∧
      (∀ c, m'.store.heap.classOf? v = some c →
        image.Derives c r.classId ∧
          image.resolve config.native ⟨c, r.methodId⟩ true =
            .ok (.method g.method)) ∧
      (m'.store.heap.classOf? v = none → g.method = index) ∧
      (callee.args = declared.args → g.locals[0]? = some v) := by
  obtain ⟨hfounded, hactive⟩ := hm.invariant
  obtain ⟨i, f, callers, n, hpoised, hexecute⟩ :=
    hexecutes.of_step hfounded hactive hstep
  have hends := (hpoised.turn.invoke_virtual hinherit hr hclass hfound hdeclared
    hargs).of_ok (invoke_of_execute hexecute)
  have hlength : n.frames.length = m.frames.length := by
    rw [hpoised.turn.frames_eq, hpoised.frames_eq]
    rfl
  unfold depth at hdepth
  rcases hends with hsame | ⟨nearest, callee, g, v, hdispatched, hentered⟩
  · omega
  · obtain ⟨hreceiver, hnull, hinstance, hother⟩ := hdispatched
    have hfirst : callee.args = declared.args → g.locals[0]? = some v := by
      intro hsame
      rw [← hsame] at hargs hreceiver
      exact hentered.first_local hargs hreceiver
    rw [hpoised.same.stack_eq] at hreceiver
    rw [← hentered.heap_eq] at hinstance hother
    obtain rfl := hentered.index_eq
    refine ⟨g, n.frames, callee, v, hentered.frames_eq, hentered.method,
      hreceiver, hnull, hinstance, ?_, hfirst⟩
    intro hnone
    exact Resolved.method.inj (hother hnone)

/-- The entry point makes two virtual calls of a method of class 1: one of an
instance of class 2, which derives from class 1, and one of the integer 5. -/
def mixedReceivers : Image where
  classes := [⟨0, none, 0⟩, ⟨1, none, 0⟩, ⟨2, some 1, 0⟩]
  methods := #[⟨0, 0, 0, 0, 1, .bytecode 0 12⟩, ⟨1, 1, 1, 1, 1, .bytecode 12 2⟩,
    ⟨2, 1, 1, 1, 1, .bytecode 14 2⟩]
  constants := #[]
  code := #[0xbb, 0x00, 0x02, 0xb6, 0x01, 0x01, 0x57, 0x08, 0xb6, 0x01, 0x01,
    0xac, 0x1a, 0xac, 0x05, 0xac]
  staticFields := 0
  main := ⟨0, 0⟩

/-- The first call is one of the method of class 2 with the instance, the
second one of the method of class 1 with the integer. -/
theorem virtual_call_receiver_mixed :
    ∃ (m m' n n' : Machine Unit) (g g' : Frame) (v : Value),
      InRun .unix mixedReceivers m ∧ step m = .ok .running m' ∧
      m'.frames.head? = some g ∧ g.method = 2 ∧ g.locals[0]? = some v ∧
      m'.store.heap.classOf? v = some 2 ∧ mixedReceivers.Derives 2 1 ∧
      InRun .unix mixedReceivers n ∧ step n = .ok .running n' ∧
      n'.frames.head? = some g' ∧ g'.method = 1 ∧
      g'.locals[0]? = some (.int 5) := by
  have htest : (fresh? .unix mixedReceivers).any (fun m0 =>
      ((paused? 1 mixedReceivers.main m0).any fun m => (next? m).any fun m' =>
        decide (m.Executes (.index (.invoke .virtual) 0x0101)) &&
          decide (m.depth < m'.depth) &&
          (m.store.stack.peek 0).toOption.any fun v =>
            m'.store.heap.classOf? v == some 2) &&
      (paused? 6 mixedReceivers.main m0).any fun n => (next? n).any fun n' =>
        decide (n.Executes (.index (.invoke .virtual) 0x0101)) &&
          decide (n.depth < n'.depth) &&
          (n.store.stack.peek 0).toOption.any fun v =>
            (v.asInt "").toOption == some 5) = true := by
    decide +kernel
  simp only [Option.any_eq_true, Bool.and_eq_true, beq_iff_eq,
    decide_eq_true_eq] at htest
  obtain ⟨m0, hfresh,
    ⟨m, hpaused, m', hm', ⟨hexecutes, hdepth⟩, v, hv, hclass⟩,
    n, hpaused', n', hn', ⟨hexecutes', hdepth'⟩, w, hw, hfive⟩ := htest
  have hm : InRun .unix mixedReceivers m :=
    ⟨m0, 1, _, rests_of_fresh hfresh, run_of_paused hpaused⟩
  have hn : InRun .unix mixedReceivers n :=
    ⟨m0, 6, _, rests_of_fresh hfresh, run_of_paused hpaused'⟩
  have hclasses : ¬ Config.unix.native.Contains 1 := by decide
  have hnamed : mixedReceivers.resolve Config.unix.native ⟨1, 1⟩ true =
      .ok (.method 1) := by decide +kernel
  have hderived : mixedReceivers.resolve Config.unix.native ⟨2, 1⟩ true =
      .ok (.method 2) := by decide +kernel
  obtain ⟨g, rest, callee, v', hframes, hcallee, hreceiver, -, hinstance, -,
      hfirst⟩ :=
    virtual_call_receiver rfl hm hexecutes rfl hclasses hnamed rfl (by decide)
      (step_of_next hm') hdepth
  obtain ⟨g', rest', callee', w', hframes', hcallee', hreceiver', -, -, hother,
      hfirst'⟩ :=
    virtual_call_receiver rfl hn hexecutes' rfl hclasses hnamed rfl (by decide)
      (step_of_next hn') hdepth'
  cases hreceiver.symm.trans (eq_ok_of_toOption hv)
  cases hreceiver'.symm.trans (eq_ok_of_toOption hw)
  obtain ⟨hderives, hmethod⟩ := hinstance 2 hclass
  have hg : 2 = g.method :=
    Resolved.method.inj (Except.ok.inj (hderived.symm.trans hmethod))
  rw [← hg] at hcallee
  cases hcallee
  rcases Value.asInt_ok (eq_ok_of_toOption hfive) with rfl | ⟨-, hzero⟩
  · have hg' : g'.method = 1 := hother rfl
    rw [hg'] at hcallee'
    cases hcallee'
    exact ⟨m, m', n, n', g, g', v, hm, step_of_next hm', by rw [hframes]; rfl,
      hg.symm, hfirst rfl, hclass, hderives, hn, step_of_next hn',
      by rw [hframes']; rfl, hg', hfirst' rfl⟩
  · exact absurd hzero (by decide)

end Machine

end SlotVm
