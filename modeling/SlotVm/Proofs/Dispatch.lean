import SlotVm.Proofs.Receivers
import SlotVm.Proofs.Resolution

/-!
# Virtual calls run the nearest override

A virtual call of an instance looks methods up twice: the named one for the
number of its arguments, and that of the class of the instance.  Each lookup
and the test between them walks up the chain of parents on its own.
`Machine.virtual_call_nearest` says that the three fit together.  If the named
class has the method and the instance is one of that class or of a class that
derives from it, the second lookup cannot fail, and cannot end at a native
class: the chain of the instance goes through the named class, so it comes to
a declaration (`Image.nearest_of_derives`), and the lookup finds the first one
(`Image.WellFormed.resolve_of_nearest`).

The step is the call of that method as a whole (`Turn.invoke_instance`), so
nothing is left out of what it can do.
-/

namespace SlotVm.Machine

open SlotVm.Action Store

variable {δ : Type} {p : Program} {m n : Machine δ} {s : Store δ}
variable {f : Frame} {callers : List Frame} {v : Value}
variable {r : MethodRef} {index : Nat} {declared : MethodDescriptor}
variable {classId : UInt16} {k : Nat}

/-! ## The choice of the method -/

/-- An instance is asked for its class. -/
theorem receiverClass?_eq (h : s.heap.classOf? v = some classId) :
    receiverClass? v s = .ok (some classId) s := by
  cases v with
  | ref handle =>
    obtain ⟨entry, hentry, hclass⟩ := Option.bind_eq_some_iff.1 h
    have hheader : Store.readHeap (δ := δ) (·.header handle) s =
        .ok entry s := lift_of_ok (Heap.header_of_entry hentry)
    rw [receiverClass?, seq_of_ok hheader, hclass]
    rfl
  | null | zero | int | float | const => cases h

section Instance

variable (hwell : p.image.WellFormed p.config)
variable (hfound : p.image.resolve p.config.native r true =
  .ok (.method index))
variable (hdeclared : p.image.methods[index]? = some declared)
variable (hargs : 0 < declared.args.toNat)
variable (hpeek : n.store.stack.peek (declared.args.toNat - 1) = .ok v)
variable (hclass : n.store.heap.classOf? v = some classId)
variable (hderives : p.image.Derives classId r.classId)
variable (hnearest : p.image.resolve p.config.native ⟨classId, r.methodId⟩
  true = .ok (.method k))

include hwell hfound hdeclared hargs hpeek hclass hderives hnearest

/-- What a virtual call of an instance chooses is what the lookup on its class
finds. -/
theorem dispatch_instance :
    dispatch p r (.method index) n.store = .ok (.method k) n.store := by
  have hmethod := Image.method_of_entry hdeclared
  have hreceiver : Store.peek (declared.args.toNat - 1) n.store =
      .ok v n.store := lift_of_ok hpeek
  rw [dispatch]
  simp only
  rw [seq_of_ok (lift_of_ok hmethod), if_neg (by omega), seq_of_ok hreceiver,
    seq_of_ok (receiverClass?_eq hclass)]
  simp only
  by_cases hnamed : classId = r.classId
  · -- the two lookups are the same one
    rw [if_pos hnamed]
    rw [hnamed] at hnearest
    cases hfound.symm.trans hnearest
    rfl
  · rw [if_neg hnamed, if_pos (hwell.linked.isSubclass_of_derives hderives)]
    exact lift_of_ok hnearest

/-- A virtual call of an instance is the call of the method that the lookup on
its class finds. -/
theorem Turn.invoke_instance (h : Turn p f callers n)
    (hinherit : p.config.features.inheritance = true) {raw : UInt16}
    (hr : p.config.native.layout.unpack raw = r)
    (hnative : ¬ p.config.native.Contains r.classId) :
    Machine.invoke .virtual raw n = Machine.call (.method k) n := by
  have hdispatch : Machine.onStore (dispatch p r (.method index)) n =
      .ok (.method k) n := by
    rw [Machine.onStore, dispatch_instance hwell hfound hdeclared hargs hpeek
      hclass hderives hnearest]
  rw [Machine.invoke, seq_of_ok h.getProgram]
  simp only [hr, if_neg hnative, hinherit, and_self, if_true]
  rw [seq_of_ok (lift_of_ok hfound), seq_of_ok hdispatch]

end Instance

/-! ## Steps -/

/-- An operation that ends as another action does lets the run go on as that
one would. -/
theorem proceed_congr {a b : Action (Machine δ) Unit} (h : a n = b n) :
    proceed a n = proceed b n := by
  unfold proceed
  simp only [Bind.bind, EStateM.bind, h]

variable {config : Config} {image : Image}

/-- A machine has been created from a configuration and an image that pass
their checks. -/
theorem Rests.checked (hm : Rests config image m) :
    config.check = .ok () ∧ image.check config = .ok () := by
  induction hm with
  | created hcreate =>
    obtain ⟨b, log, -, -, hm⟩ := (create_created _ _ _ _ _).of_ok hcreate
    exact ⟨hm.config_ok, hm.image_ok⟩
  | finished _ _ ih => exact ih
  | stopped _ _ ih => exact ih

theorem Rests.wellFormed (hm : Rests config image m) :
    image.WellFormed config :=
  (Image.check_iff_wellFormed hm.checked.1).1 hm.checked.2

/-- A virtual call of an instance is a call of the nearest override.  The
named class has the method, for as many arguments as put the instance `v` in
the place of the receiver, and the class of the instance is the named one or
derives from it.  Then the lookup on the class of the instance finds the
method of the first class of its chain that declares one, which is no native
class, and the step is the call of that method and nothing else.  If the method
has code, the call begins, or there are too few operands or too many calls. -/
theorem virtual_call_nearest {raw : UInt16}
    (hinherit : config.features.inheritance = true)
    (hm : InRun config image m)
    (hexecutes : m.Executes (.index (.invoke .virtual) raw))
    (hr : config.native.layout.unpack raw = r)
    (hnative : ¬ config.native.Contains r.classId)
    (hfound : image.resolve config.native r true = .ok (.method index))
    (hdeclared : image.methods[index]? = some declared)
    (hargs : 0 < declared.args.toNat)
    (hpeek : m.store.stack.peek (declared.args.toNat - 1) = .ok v)
    (hclass : m.store.heap.classOf? v = some classId)
    (hderives : image.Derives classId r.classId) :
    ∃ d k callee i f callers n,
      image.Nearest r.methodId classId d ∧ ¬ config.native.Contains d ∧
      image.methods[k]? = some callee ∧ callee.ref = ⟨d, r.methodId⟩ ∧
      image.resolve config.native ⟨classId, r.methodId⟩ true =
        .ok (.method k) ∧
      Poised (.load config image) i f callers m n ∧
      step m = proceed (Machine.call (.method k)) n ∧
      (callee.isNative = true →
        step m = proceed (Machine.callNative callee.ref) n) ∧
      (callee.isNative = false → Ends step m
        (fun _ m' => ∃ g, Entered (.load config image) n k callee g m')
        (fun e _ => e = .stackUnderflow ∨
          e = .callDepthExceeded config.maxCallDepth)) := by
  obtain ⟨hfounded, hactive⟩ := hm.invariant
  have hwell : image.WellFormed config := by
    obtain ⟨m0, -, -, hrests, -⟩ := hm
    exact hrests.wellFormed
  obtain ⟨i, f, callers, n, hpoised, hstep⟩ :=
    hexecutes.step_eq hfounded hactive
  obtain ⟨d, k, callee, hnearest, hcallee, href, hresolve⟩ :=
    hwell.resolve_of_derives hfound hderives
  rw [← hpoised.same.stack_eq] at hpeek
  rw [← hpoised.same.heap_eq] at hclass
  have hinvoke := Turn.invoke_instance hwell hfound hdeclared hargs hpeek
    hclass hderives hresolve hpoised.turn hinherit hr hnative
  have hcall : step m = proceed (Machine.call (.method k)) n := by
    rw [hstep, ← proceed_congr hinvoke]
    rfl
  refine ⟨d, k, callee, i, f, callers, n, hnearest, ?_, hcallee, href, hresolve,
    hpoised, hcall, ?_, ?_⟩
  · exact hwell.linked.not_native_of_declares hnearest.declares
  · intro hcode
    rw [hcall]
    exact proceed_congr (hpoised.turn.call_native hcallee hcode)
  · intro hcode
    unfold Ends
    rw [hcall]
    exact (hpoised.turn.call_code hcallee hcode).bind fun _ _ h => Ends.pure h

/-- The entry point makes a virtual call of the method of class 1 with an
instance of class 3.  Its parent is class 2, which overrides the method, and
the parent of that is class 1. -/
def inheritedOverride : Image where
  classes := [⟨0, none, 0⟩, ⟨1, some 16, 0⟩, ⟨2, some 1, 0⟩, ⟨3, some 2, 0⟩]
  methods := #[⟨0, 0, 0, 0, 1, .bytecode 0 7⟩, ⟨1, 1, 1, 1, 1, .bytecode 7 2⟩,
    ⟨2, 1, 1, 1, 1, .bytecode 9 2⟩]
  constants := #[]
  code := #[0xbb, 0x00, 0x03, 0xb6, 0x01, 0x01, 0xac, 0x04, 0xac, 0x05, 0xac]
  staticFields := 0
  main := ⟨0, 0⟩

/-- The call is one of the method of class 2. -/
theorem virtual_call_nearest_inherited :
    ∃ (m m' : Machine Unit) (g : Frame) (v : Value),
      InRun .unix inheritedOverride m ∧
      m.Executes (.index (.invoke .virtual) 0x0101) ∧
      m.store.stack.peek 0 = .ok v ∧ m.store.heap.classOf? v = some 3 ∧
      inheritedOverride.Derives 3 1 ∧ inheritedOverride.Nearest 1 3 2 ∧
      step m = .ok .running m' ∧ m'.frames.head? = some g ∧ g.method = 2 := by
  have htest : (fresh? .unix inheritedOverride).any (fun m0 =>
      (paused? 1 inheritedOverride.main m0).any fun m => (next? m).any fun _ =>
        decide (m.Executes (.index (.invoke .virtual) 0x0101)) &&
          (m.store.stack.peek 0).toOption.any fun v =>
            m.store.heap.classOf? v == some 3) = true := by
    decide +kernel
  simp only [Option.any_eq_true, Bool.and_eq_true, beq_iff_eq,
    decide_eq_true_eq] at htest
  obtain ⟨m0, hfresh, m, hpaused, m', hnext, hexecutes, v, hv, hclass⟩ := htest
  have hm : InRun .unix inheritedOverride m :=
    ⟨m0, 1, _, rests_of_fresh hfresh, run_of_paused hpaused⟩
  have hpeek := eq_ok_of_toOption hv
  have hstep := step_of_next hnext
  have hnative : ¬ Config.unix.native.Contains 1 := by decide
  have hnamed : inheritedOverride.resolve Config.unix.native ⟨1, 1⟩ true =
      .ok (.method 1) := by decide +kernel
  have hderives : inheritedOverride.Derives 3 1 := by
    have hmeets : inheritedOverride.meets 1 5 3 = true := by decide +kernel
    exact Image.derives_of_meets hmeets
  have hoverride : inheritedOverride.resolve Config.unix.native ⟨3, 1⟩ true =
      .ok (.method 2) := by decide +kernel
  obtain ⟨d, k, callee, i, f, callers, n, hnearest, -, hcallee, href, hresolve,
      -, -, -, hcode⟩ :=
    virtual_call_nearest rfl hm hexecutes rfl hnative hnamed rfl (by decide)
      hpeek hclass hderives
  cases hoverride.symm.trans hresolve
  cases hcallee
  cases href
  obtain ⟨g, hentered⟩ := (hcode rfl).of_ok hstep
  exact ⟨m, m', g, v, hm, hexecutes, hpeek, hclass, hderives, hnearest, hstep,
    by rw [hentered.frames_eq]; rfl, hentered.index_eq⟩

end SlotVm.Machine
