import SlotVm.Proofs.Machine.Invariant
import SlotVm.Proofs.Narrowing.Steps
import SlotVm.Proofs.Values

/-!
# Elements in a session

An element of an array is one that its array admits, or it was put there as
it is by a step that the session has made before, and an array load pushes
elements only (`elements_narrowed`).  `Precedes` says what it is for a step
to have been made before.

The induction over a run goes from its end: a run of one more instruction
has ended before, or it has made one more step (`run_leaves_succ`).  Over a
session it follows `Rests`.

The other elements exist: `rawElements` leaves two of them in an array of
bytes, one for each way to put them there.
-/

namespace SlotVm

open SlotVm.Action

variable {δ : Type}

/-! ## Array loads -/

/-- The position of an element is the index, which is not negative. -/
theorem Store.elementAt_ends (r : UInt16) (index : Int32) (s : Store δ) :
    Ends (Data.elementAt r index) s
      (fun i t => t = s ∧ index.toInt = i) (fun _ _ => True) := by
  have hlen : Ends (Store.readHeap (δ := δ) (·.len r)) s
      (fun _ t => t = s) (fun _ _ => True) :=
    Ends.read (fun _ _ => rfl) fun _ _ => trivial
  refine hlen.bind ?_
  rintro length _ rfl
  by_cases hindex : 0 ≤ index.toInt ∧ index.toInt < length
  · simp only [if_pos hindex]
    exact Ends.pure ⟨rfl, (Int.toNat_of_nonneg hindex.1).symm⟩
  · simp only [if_neg hindex]
    exact Ends.throw trivial

/-- The last two operands of `s` are an array and an index, and `t` has the
element there instead of them. -/
structure Store.Loads (s t : Store δ) (r : UInt16) (k : ArrayKind) (i : Nat)
    (v : Value) : Prop where
  element : s.heap.Element r k i v
  operands : ∃ (below : List Value) (index : Value) (op : String) (n : Int32),
    s.stack.operands = below ++ [.ref r, index] ∧
    index.asInt op = .ok n ∧ n.toInt = i ∧ t.stack.operands = below ++ [v]

/-- An array load pushes an element as it is. -/
theorem Store.arrayLoad_ends {s : Store δ} (hb : s.stack.Bounded)
    (op : String) :
    Ends (Data.arrayLoad op) s (fun _ t => ∃ r k i v, s.Loads t r k i v)
      (fun _ _ => True) := by
  refine ((popInt_ends hb op).imp_fail fun _ _ _ => trivial).bind ?_
  rintro n t ⟨hheap, hbounded, index, hindex, hn⟩
  refine ((popArray_ends hbounded op).imp_fail fun _ _ _ => trivial).bind ?_
  rintro ⟨r, k⟩ u ⟨hheap', hbounded', harray, entry, hentry, hkind⟩
  refine (elementAt_ends r n u).bind ?_
  rintro i _ ⟨rfl, hi⟩
  rename_i u
  have hload : Ends (Store.loadSlot (δ := δ) r i) u
      (fun v w => w = u ∧ u.heap.load r i = .ok v) (fun _ _ => True) :=
    Ends.read (fun _ h => ⟨rfl, h⟩) fun _ _ => trivial
  refine hload.bind ?_
  rintro v _ ⟨rfl, hv⟩
  rename_i u
  unfold Store.push
  apply Ends.onPart
  refine (Stack.push_ends hbounded' v).mono ?_ fun _ _ _ => trivial
  rintro _ stack ⟨-, hpushed⟩
  have hheader := Heap.header_of_entry hentry
  rw [hheap'] at hv
  rw [hheap] at hheader hv
  refine ⟨r, k, i, v, ⟨⟨entry, hheader, hkind⟩, hv⟩, u.stack.operands, index,
    op, n, ?_, hn, hi, hpushed⟩
  rw [hindex, harray, List.append_assoc]
  rfl

namespace Machine

open Store

variable {p : Program} {m m' n u : Machine δ} {fuel : Nat} {e : Fault}
variable {entry : MethodRef} {config : Config} {image : Image} {flow : Flow}

/-- A step that loads an element pushes it as it is. -/
theorem step_arrayLoad (hm : m.Founded p) (ha : m.Active p) {tag : Element}
    (hexecutes : m.Executes (.plain (.arrayLoad tag)))
    (hstep : step m = .ok flow m') :
    ∃ r k i v, m.store.Loads m'.store r k i v := by
  obtain ⟨i, f, callers, n, hpoised, hexecute⟩ :=
    hexecutes.of_step hm ha hstep
  obtain ⟨_, u, hprogram, hproceed⟩ := seq_eq_ok hexecute
  cases hprogram
  have hload := proceed_eq_ok hproceed
  have hbounded := hpoised.turn.founded.sound.bounded
  have hends : Ends (Machine.onStore (Data.arrayLoad
      (PlainOp.arrayLoad tag).mnemonic)) n
      (fun _ t => ∃ r k i v, n.store.Loads t.store r k i v)
      (fun _ _ => True) := onStore_ends (arrayLoad_ends hbounded _)
  obtain ⟨r, k, i, v, helement, hoperands⟩ := hends.of_ok hload
  rw [hpoised.same.heap_eq] at helement
  rw [hpoised.same.stack_eq] at hoperands
  exact ⟨r, k, i, v, helement, hoperands⟩

/-! ## The block of the static fields -/

theorem StaticBlock.of_grows (h : m.StaticBlock)
    (hgrows : m.heap.GrowsTo m'.heap) (hstatics : m'.statics = m.statics) :
    m'.StaticBlock := by
  obtain ⟨entry, hentry, hkind⟩ := h
  rw [← hstatics] at hentry
  exact ⟨entry, hgrows _ _ hentry, hkind⟩

theorem StepsTo.statics_eq (h : StepsTo p m flow m') :
    m'.statics = m.statics := by
  obtain ⟨i, f, callers, n, hpoised, heffect⟩ := h
  cases heffect with
  | stays hs => exact hs.statics_eq.trans hpoised.statics_eq
  | calls hc => exact hc.statics_eq.trans hpoised.statics_eq
  | returns hr => exact hr.statics_eq.trans hpoised.statics_eq

theorem FaultsIn.statics_eq (h : FaultsIn p m e m') :
    m'.statics = m.statics := by
  rcases h with ⟨rfl, -⟩ | ⟨i, f, callers, n, hpoised, hhalts⟩
  · rfl
  · exact hhalts.statics_eq.trans hpoised.statics_eq

/-- No part of a run makes anything else of the block. -/
theorem preserved_staticBlock (p : Program) :
    Preserved p (StaticBlock (δ := δ)) where
  starts _ hj h := hj.of_grows (.of_eq h.heap_eq) h.statics_eq
  steps _ _ hj h := hj.of_grows h.growsTo h.statics_eq
  faults _ _ hj h := hj.of_grows h.growsTo h.statics_eq
  logged hj h := hj.of_grows (.of_eq h.same.heap_eq) h.statics_eq

/-- A new machine has the block and no other object. -/
theorem Created.objects_eq {b : Bridge δ} {console : Console} {devices : δ}
    (h : Created b config image console devices m) :
    ∃ entry, m.heap.objects = #[entry] ∧ entry.kind = .chunk ∧
      m.statics.toNat = 0 := by
  obtain ⟨-, -, hstatics, hheap⟩ :=
    ((Heap.laid_empty _ _).allocateKind_ends _ _ _).of_ok h.heap_eq
  unfold Machine.heap
  rw [hheap]
  exact ⟨_, rfl, rfl, hstatics⟩

theorem Created.staticBlock {b : Bridge δ} {console : Console} {devices : δ}
    (h : Created b config image console devices m) : m.StaticBlock := by
  obtain ⟨entry, hobjects, hkind, hstatics⟩ := h.objects_eq
  refine ⟨entry, ?_, hkind⟩
  rw [hobjects, hstatics]
  rfl

theorem InRun.staticBlock (h : InRun config image m) : m.StaticBlock :=
  (preserved_staticBlock _).inRun (fun hcreated => hcreated.staticBlock) h

/-! ## Runs -/

/-- A run that makes no step leaves the heap as it is. -/
theorem run_zero_heap (hm : m.Founded p) (h : Leaves (run 0 entry) m m') :
    m'.heap = m.heap := by
  have hends : Ends (run 0 entry) m (fun _ u => u.heap = m.heap)
      (fun _ u => u.heap = m.heap) := by
    refine ((start_ends hm entry).imp_fail ?_).bind ?_
    · exact fun e u hend => congrArg Machine.heap hend.1
    · exact fun _ u hstarts => Ends.pure hstarts.heap_eq
  exact hends.of_leaves h

/-- A run adds no elements but those that arrays admit and those that its
steps have put there. -/
theorem run_narrows (hm : Rests config image m)
    (h : Leaves (run fuel entry) m m') :
    m.heap.Narrows (fun r i v => ∃ passed n, passed < fuel ∧
      run passed entry m = .ok .unfinished n ∧ n.Puts r i v) m'.heap := by
  induction fuel generalizing m' with
  | zero =>
    rw [run_zero_heap hm.founded h]
    exact .refl hm.founded.sound.laid
  | succ fuel ih =>
    rcases run_leaves_succ h with hended | ⟨n, u, hrun, hstep, hlogged⟩
    · apply (ih hended).mono
      rintro r i v ⟨passed, n, hlt, hput⟩
      exact ⟨passed, n, by omega, hput⟩
    · have hn : InRun config image n := ⟨m, fuel, entry, hm, hrun⟩
      obtain ⟨hfounded, hactive⟩ := hn.invariant
      have hlast := step_narrows hfounded hactive hn.staticBlock hstep
      have hheap : m'.heap = u.heap := hlogged.same.heap_eq
      rw [hheap]
      have hbefore := ih (.inl ⟨_, hrun⟩)
      refine (hbefore.mono ?_).trans (hlast.mono ?_)
      · rintro r i v ⟨passed, n, hlt, hput⟩
        exact ⟨passed, n, by omega, hput⟩
      · exact fun r i v hput => ⟨fuel, n, by omega, hrun, hput⟩

/-! ## Sessions -/

/-- The session has come from the machine `n` in a run, by a step and perhaps
more, to the machine `m`. -/
inductive Precedes (config : Config) (image : Image) (n : Machine δ) :
    Machine δ → Prop where
  | inRun {m m' : Machine δ} {passed fuel : Nat} {entry : MethodRef} :
      Rests config image m → run passed entry m = .ok .unfinished n →
      passed < fuel → Leaves (run fuel entry) m m' → Precedes config image n m'
  | later {m m' : Machine δ} {fuel : Nat} {entry : MethodRef} :
      Precedes config image n m → Rests config image m →
      Leaves (run fuel entry) m m' → Precedes config image n m'

/-- An element is admitted by its array, or a step before has put it there. -/
def ElementsNarrowed (config : Config) (image : Image) (m : Machine δ) : Prop :=
  ∀ r k i v, m.heap.Element r k i v →
    k.Admits v ∨ ∃ n, Precedes config image n m ∧ n.Puts r i v

/-- A new machine has no arrays. -/
theorem Created.elementsNarrowed {b : Bridge δ} {console : Console}
    {devices : δ} (h : Created b config image console devices m) :
    ElementsNarrowed config image m := by
  obtain ⟨block, hobjects, hblock, -⟩ := h.objects_eq
  rintro r k i v ⟨⟨entry, hheader, hkind⟩, -⟩
  have hentry := Array.mem_of_getElem? (Heap.header_ok hheader)
  rw [hobjects] at hentry
  cases Array.mem_singleton.1 hentry
  cases hblock.symm.trans hkind

theorem ElementsNarrowed.run (hj : ElementsNarrowed config image m)
    (hm : Rests config image m) (h : Leaves (run fuel entry) m m') :
    ElementsNarrowed config image m' := by
  intro r k i v hv
  rcases (run_narrows hm h).elements r k i v hv with
    hadmits | hold | ⟨passed, n, hlt, hrun, hput⟩
  · exact .inl hadmits
  · refine (hj r k i v hold).imp_right ?_
    rintro ⟨n, hbefore, hput⟩
    exact ⟨n, .later hbefore hm h, hput⟩
  · exact .inr ⟨n, .inRun hm hrun hlt h, hput⟩

theorem Rests.elementsNarrowed (hm : Rests config image m) :
    ElementsNarrowed config image m := by
  induction hm with
  | created hcreate =>
    obtain ⟨b, log, -, -, hm⟩ := (create_created _ _ _ _ _).of_ok hcreate
    exact hm.elementsNarrowed
  | finished hrests hrun ih => exact ih.run hrests (.inl ⟨_, hrun⟩)
  | stopped hrests hrun ih => exact ih.run hrests (.inr ⟨_, hrun⟩)

theorem InRun.elementsNarrowed (hm : InRun config image m) :
    ElementsNarrowed config image m := by
  obtain ⟨m0, fuel, entry, hrests, hrun⟩ := hm
  exact hrests.elementsNarrowed.run hrests (.inl ⟨_, hrun⟩)

/-- Every element is one that its array admits, so that narrowing leaves it
as it is, or a step of the session has put it there.  An array load pushes
elements only. -/
theorem elements_narrowed (config : Config) (image : Image) :
    (∀ (m : Machine δ) (r : UInt16) (k : ArrayKind) (i : Nat) (v : Value),
      Rests config image m ∨ InRun config image m → m.heap.Element r k i v →
      (k.Admits v ∧ ∀ op, k.narrow op v = .ok v) ∨
        ∃ n, Precedes config image n m ∧ n.Puts r i v) ∧
    ∀ (m m' : Machine δ) (flow : Flow) (tag : Element), InRun config image m →
      m.Executes (.plain (.arrayLoad tag)) → step m = .ok flow m' →
      ∃ r k i v, m.store.Loads m'.store r k i v ∧
        ((k.Admits v ∧ ∀ op, k.narrow op v = .ok v) ∨
          ∃ n, Precedes config image n m ∧ n.Puts r i v) := by
  have helements : ∀ (m : Machine δ) (r : UInt16) (k : ArrayKind) (i : Nat)
      (v : Value), Rests config image m ∨ InRun config image m →
      m.heap.Element r k i v → (k.Admits v ∧ ∀ op, k.narrow op v = .ok v) ∨
        ∃ n, Precedes config image n m ∧ n.Puts r i v := by
    intro m r k i v hm hv
    have hnarrowed : ElementsNarrowed config image m :=
      hm.elim Rests.elementsNarrowed InRun.elementsNarrowed
    refine (hnarrowed r k i v hv).imp_left ?_
    exact fun hadmits => ⟨hadmits, ArrayKind.admits_iff_narrow.1 hadmits⟩
  refine ⟨helements, ?_⟩
  intro m m' flow tag hm hexecutes hstep
  obtain ⟨hfounded, hactive⟩ := hm.invariant
  obtain ⟨r, k, i, v, hload⟩ :=
    step_arrayLoad hfounded hactive hexecutes hstep
  exact ⟨r, k, i, v, hload, helements m r k i v (.inr hm) hload.element⟩

/-- The entry point allocates an array of three bytes.  It calls the
constructor of the string buffer on the array, puts 200 into the second
element with `putfield` and into the third one with an array store, and
returns the second one. -/
def rawElements : Image where
  classes := [⟨0, none, 0⟩]
  methods := #[⟨0, 0, 0, 0, 4, .bytecode 0 23⟩]
  constants := #[]
  code := #[0x06, 0xbc, 0x08, 0x59, 0xb7, 0x13, 0x00, 0x59, 0x11, 0x00, 0xc8,
    0xb5, 0x00, 0x01, 0x59, 0x05, 0x11, 0x00, 0xc8, 0x54, 0x04, 0x33, 0xac]
  staticFields := 0
  main := ⟨0, 0⟩

/-- The third element is narrowed, the other two are not. -/
theorem rawElements_run : ∃ m n n' m' : Machine Unit,
    Rests .unix rawElements m ∧
    run 12 rawElements.main m = .ok .unfinished n ∧
    n.Executes (.plain (.arrayLoad .byte)) ∧ step n = .ok .running n' ∧
    run 14 rawElements.main m = .ok (.finished (some (.int 200))) m' ∧
    m'.heap.Element 1 .byte 0 .null ∧ m'.heap.Element 1 .byte 1 (.int 200) ∧
    m'.heap.Element 1 .byte 2 (.int (-56)) := by
  have htest : (fresh? .unix rawElements).any (fun m =>
      ((paused? 12 rawElements.main m).any fun n => (next? n).any fun _ =>
        decide (n.Executes (.plain (.arrayLoad .byte)))) &&
      (ended? 14 rawElements.main m).any fun x =>
        (x.1.any fun v => (v.asInt "").toOption == some 200) &&
        ((x.2.heap.header 1).toOption.any (·.kind == .array .byte)) &&
        ((x.2.heap.load 1 0).toOption.any fun v =>
          v.isNull && (v.asInt "").toOption == none) &&
        ((x.2.heap.load 1 1).toOption.any fun v =>
          (v.asInt "").toOption == some 200) &&
        ((x.2.heap.load 1 2).toOption.any fun v =>
          (v.asInt "").toOption == some (-56))) = true := by
    decide +kernel
  simp only [Option.any_eq_true, Bool.and_eq_true, beq_iff_eq,
    decide_eq_true_eq] at htest
  obtain ⟨m, hfresh, ⟨n, hpaused, n', hnext, hexecutes⟩, ⟨_, m'⟩, hended,
    ⟨⟨⟨⟨returned, rfl, hreturned⟩, entry, hheader, hkind⟩,
      v, hv, hnull, hnone⟩, w, hw, hraw⟩, x, hx, hnarrow⟩ := htest
  have hint : ∀ {v : Value} {n : Int32}, n ≠ 0 →
      (v.asInt "").toOption = some n → v = .int n := by
    intro v n hn hv
    exact (Value.asInt_ok (eq_ok_of_toOption hv)).resolve_right
      fun hzero => hn hzero.2
  obtain rfl := hint (by decide) hreturned
  obtain rfl := hint (by decide) hraw
  obtain rfl := hint (by decide) hnarrow
  have harray : ∃ entry, m'.heap.header 1 = .ok entry ∧
      entry.kind = .array .byte := ⟨entry, eq_ok_of_toOption hheader, hkind⟩
  have hempty : v = .null := by
    cases v with
    | null => rfl
    | zero => cases hnone
    | int | float | ref | const => cases hnull
  rw [hempty] at hv
  exact ⟨m, n, n', m', rests_of_fresh hfresh, run_of_paused hpaused, hexecutes,
    step_of_next hnext, run_of_ended hended, ⟨harray, eq_ok_of_toOption hv⟩,
    ⟨harray, eq_ok_of_toOption hw⟩, ⟨harray, eq_ok_of_toOption hx⟩⟩

/-- Two elements of the array of bytes are not what narrowing leaves, and one
of them is loaded and returned. -/
theorem elements_not_narrowed : ∃ m m' : Machine Unit,
    Rests .unix rawElements m ∧ Rests .unix rawElements m' ∧
    run 14 rawElements.main m = .ok (.finished (some (.int 200))) m' ∧
    m'.heap.Element 1 .byte 0 .null ∧
    (∀ op, ArrayKind.byte.narrow op .null ≠ .ok .null) ∧
    m'.heap.Element 1 .byte 1 (.int 200) ∧
    ∀ op, ArrayKind.byte.narrow op (.int 200) = .ok (.int (-56)) := by
  obtain ⟨m, -, -, m', hm, -, -, -, hrun, hnull, hraw, -⟩ := rawElements_run
  have hrefused : ∀ op, ArrayKind.byte.narrow op .null ≠ .ok .null := by
    intro op hop
    cases hop
  exact ⟨m, m', hm, .finished hm hrun, hrun, hnull, hrefused, hraw,
    fun _ => rfl⟩

/-- A step has put 200 into the array, and the load pushes an element. -/
theorem elements_narrowed_raw : ∃ m n n' : Machine Unit,
    Rests .unix rawElements m ∧ m.heap.Element 1 .byte 1 (.int 200) ∧
    (∃ u, Precedes .unix rawElements u m ∧ u.Puts 1 1 (.int 200)) ∧
    InRun .unix rawElements n ∧ step n = .ok .running n' ∧
    ∃ r k i v, n.store.Loads n'.store r k i v := by
  obtain ⟨m, n, n', m', hm, hpaused, hexecutes, hstep, hrun, -, hraw, -⟩ :=
    rawElements_run
  have hm' : Rests .unix rawElements m' := .finished hm hrun
  have hn : InRun .unix rawElements n := ⟨m, 12, _, hm, hpaused⟩
  obtain ⟨helements, hloads⟩ := elements_narrowed (δ := Unit) .unix rawElements
  have hwide : ¬ ArrayKind.byte.Admits (.int 200) :=
    fun hrange => absurd hrange.2 (by decide)
  have hputs := (helements m' 1 .byte 1 (.int 200) (.inl hm') hraw).resolve_left
    fun hadmits => hwide hadmits.1
  obtain ⟨r, k, i, v, hload, -⟩ := hloads n n' .running .byte hn hexecutes hstep
  exact ⟨m', n, n', hm', hraw, hputs, hn, hstep, r, k, i, v, hload⟩

end Machine

end SlotVm
