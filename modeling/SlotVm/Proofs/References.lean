import SlotVm.Proofs.Machine.Session

/-!
# References

No reference in a machine dangles, and none is forged.  Every handle that
the stack, a local variable or the heap holds names an object of the heap,
and every constant that is held there names a string of the pool.  No handle
of the static fields is ever among them, which is why `putstatic` is the only
instruction that can change a static field.

Two faults cannot occur for this reason.  No run ends with
`invalidReference`, and `invalidConstant` is not raised by a native method
that reads a string.
-/

namespace SlotVm

open SlotVm.Action

/-- Only `putstatic` writes static fields. -/
theorem Operation.putStatic_of_mayWrite {statics : UInt16} {o : Operation}
    (h : o.MayWrite statics statics) : ∃ operand, o = .index .putStatic operand := by
  unfold MayWrite at h
  split at h
  · exact ⟨_, rfl⟩
  · exact absurd rfl h

namespace Machine

variable {δ : Type} {config : Config} {image : Image} {p : Program}
variable {m m' : Machine δ} {flow : Flow} {e : Fault} {v : Value}

/-! ## Values that are held -/

/-- The values that the machine holds: on the operand stack, in the local
variables of a call, or in the heap. -/
inductive Held (m : Machine δ) (v : Value) : Prop where
  | operand : v ∈ m.store.stack.values → Held m v
  | ofLocal {f : Frame} : f ∈ m.frames → v ∈ f.locals → Held m v
  | slot : v ∈ m.store.heap.arena.slots → Held m v

theorem Founded.grounded (hm : m.Founded p) (hv : m.Held v) :
    v.Grounded p m.statics m.store.heap := by
  cases hv with
  | operand hv => exact hm.sound.values v hv
  | ofLocal hf hv => exact hm.locals _ hf v hv
  | slot hv => exact hm.sound.slots v hv

/-! ## Static fields -/

/-- The next step runs `putstatic`. -/
def WritesStatics (m : Machine δ) : Prop :=
  ∃ operand, m.Executes (.index .putStatic operand)

/-- The static fields are the same in both machines. -/
def SameStatics (m m' : Machine δ) : Prop :=
  ∀ i, m'.staticField i = m.staticField i

theorem Keeps.sameStatics (hk : Keeps m m')
    (hheap : m'.store.heap = m.store.heap) : SameStatics m m' := by
  intro i
  unfold staticField
  rw [hk.statics_eq, hheap]

/-- A change that does not write the static fields leaves them as they
are. -/
theorem Keeps.sameStatics_of_change {K : Value → Prop} {W : UInt16 → Prop}
    (hk : Keeps m m') (hm : m.Founded p)
    (hc : Store.Change p K W m.store m'.store) (hW : ¬ W m.statics) :
    SameStatics m m' := by
  intro i
  unfold staticField
  rw [hk.statics_eq]
  exact hc.load_kept hm.sound.laid hW hm.sound.statics i

theorem SameStatics.trans {n : Machine δ} (h : SameStatics m n)
    (h' : SameStatics n m') : SameStatics m m' :=
  fun i => (h' i).trans (h i)

/-- A step leaves the static fields as they are, unless it runs
`putstatic`. -/
theorem StepsTo.sameStatics (h : StepsTo p m flow m') :
    m.WritesStatics ∨ SameStatics m m' := by
  obtain ⟨i, f, callers, n, hpoised, heffect⟩ := h
  have hn := hpoised.toKeeps.sameStatics hpoised.same.heap_eq
  cases heffect with
  | stays hs =>
    by_cases hwrite : i.operation.MayWrite n.statics n.statics
    · obtain ⟨operand, ho⟩ := Operation.putStatic_of_mayWrite hwrite
      exact .inl ⟨operand, i, hpoised.fetched, ho⟩
    · exact .inr (hn.trans
        (hs.sameStatics_of_change hpoised.turn.founded hs.change hwrite))
  | calls hc => exact .inr (hn.trans (hc.sameStatics hc.heap_eq))
  | returns hr => exact .inr (hn.trans (hr.sameStatics hr.heap_eq))

/-- A step that stops at a fault leaves the static fields as they are. -/
theorem FaultsIn.sameStatics (h : FaultsIn p m e m') : SameStatics m m' := by
  rcases h with ⟨rfl, -⟩ | ⟨i, f, callers, n, hpoised, hhalts⟩
  · exact fun _ => rfl
  · have hn := hpoised.toKeeps.sameStatics hpoised.same.heap_eq
    exact hn.trans (hhalts.sameStatics_of_change hpoised.turn.founded
      hhalts.quiet.toChange id)

theorem step_statics (hm : m.Founded p) (ha : m.Active p)
    (h : Leaves step m m') : m.WritesStatics ∨ SameStatics m m' :=
  ((step_ends hm ha).mono (fun _ _ hto => hto.sameStatics)
    fun _ _ hfault => .inr hfault.sameStatics).of_leaves h

/-- The static fields of a machine that is reached are the old ones, unless
`putstatic` has been run on the way. -/
theorem Reaches.sameStatics (h : Reaches m m') (hm : m.Founded p)
    (ha : m.Active p) :
    (∃ n, Reaches m n ∧ n.WritesStatics) ∨ SameStatics m m' := by
  induction h with
  | refl => exact .inr fun _ => rfl
  | tail hn hstep ih =>
    obtain ⟨hf, han⟩ := hn.invariant hm ha
    rcases ih with hwrites | hsame
    · exact .inl hwrites
    · rcases step_statics hf han (.inl ⟨_, hstep⟩) with hwrites | hlast
      · exact .inl ⟨_, hn, hwrites⟩
      · exact .inr (hsame.trans hlast)

/-- A whole run leaves the static fields as they are, unless it runs
`putstatic`. -/
theorem run_statics (hm : m.Founded p) {fuel : Nat} {entry : MethodRef}
    (h : Leaves (run fuel entry) m m') :
    (∃ m0 n, start entry m = .ok () m0 ∧ Reaches m0 n ∧ n.WritesStatics) ∨
      SameStatics m m' := by
  rcases run_leaves hm h with
    rfl | ⟨m0, n, hstart, hstarts, hreach, hend⟩
  · exact .inr fun _ => rfl
  · obtain ⟨hm0, ha0⟩ := hstarts.turn hm
    rcases hreach.sameStatics hm0 ha0 with ⟨k, hk, hwrites⟩ | hsame
    · exact .inl ⟨m0, k, hstart, hk, hwrites⟩
    · have hn := (hstarts.sameStatics hstarts.heap_eq).trans hsame
      rcases hend with rfl | ⟨m1, hleaves, hlogged⟩
      · exact .inr hn
      · obtain ⟨hf, han⟩ := hreach.invariant hm0 ha0
        rcases step_statics hf han hleaves with hwrites | hlast
        · exact .inl ⟨m0, n, hstart, hreach, hwrites⟩
        · exact .inr ((hn.trans hlast).trans
            (hlogged.sameStatics hlogged.same.heap_eq))

/-! ## Faults that do not occur -/

/-- Reading a string that the machine holds does not ask for a constant that
is not there. -/
theorem Founded.read_ne_invalidConstant (hm : m.Founded p) (hv : m.Held v)
    (k : Nat) :
    Strings.read m.store.heap p.image v ≠ .error (.invalidConstant k) :=
  fun he => Strings.read_error hm.sound (hm.grounded hv) he

/-- A run does not end at a handle that the heap does not have. -/
theorem run_ne_invalidReference (hm : m.Founded p) {fuel : Nat}
    {entry : MethodRef} (r : UInt16) :
    run fuel entry m ≠ .error (.invalidReference r) m' := by
  intro hrun
  rcases (run_ends fuel entry hm).of_error hrun with
    ⟨-, hentry⟩ | ⟨m0, n, m1, -, hstarts, hreach, hstep, -⟩
  · rcases entryIndex_error hm.valid hentry with h | h | h <;> cases h
  · obtain ⟨hm0, ha0⟩ := hstarts.turn hm
    obtain ⟨hn, han⟩ := hreach.invariant hm0 ha0
    exact step_error hn han hstep

/-! ## The invariant of references -/

/-- Everything that a machine holds is there.  A step or a run that changes a
static field runs `putstatic`, no run ends with `invalidReference`, and no
string that a native method reads asks for a constant that is not there. -/
theorem references_grounded (config : Config) (image : Image) :
    (∀ (m : Machine δ) (v : Value),
      Rests config image m ∨ InRun config image m → m.Held v →
      v.Grounded (.load config image) m.statics m.store.heap) ∧
    (∀ m m' : Machine δ, InRun config image m → Leaves step m m' →
      m.WritesStatics ∨ SameStatics m m') ∧
    (∀ (m m' : Machine δ) (fuel : Nat) (entry : MethodRef),
      Rests config image m → Leaves (run fuel entry) m m' →
      (∃ m0 n, start entry m = .ok () m0 ∧ Reaches m0 n ∧ n.WritesStatics) ∨
        SameStatics m m') ∧
    (∀ (m m' : Machine δ) (fuel : Nat) (entry : MethodRef) (r : UInt16),
      Rests config image m →
      run fuel entry m ≠ .error (.invalidReference r) m') ∧
    ∀ (m : Machine δ) (k : Nat), InRun config image m →
      (∀ v, m.Held v →
        Strings.read m.store.heap image v ≠ .error (.invalidConstant k)) ∧
      ∀ kind raw m', m.Executes (.index (.invoke kind) raw) →
        step m ≠ .error (.invalidConstant k) m' := by
  refine ⟨?_, ?_, ?_, ?_, ?_⟩
  · intro m v hcase hv
    rcases hcase with hrests | hrun
    · exact hrests.founded.grounded hv
    · exact hrun.invariant.1.grounded hv
  · intro m m' hrun hleaves
    obtain ⟨hm, ha⟩ := hrun.invariant
    exact step_statics hm ha hleaves
  · intro m m' fuel entry hrests hleaves
    exact run_statics hrests.founded hleaves
  · intro m m' fuel entry r hrests hrun
    exact run_ne_invalidReference hrests.founded r hrun
  · intro m k hrun
    obtain ⟨hm, ha⟩ := hrun.invariant
    refine ⟨fun v hv => hm.read_ne_invalidConstant hv k, ?_⟩
    intro kind raw m' hinvoke hstep
    obtain ⟨operand, hload, -⟩ := step_error hm ha hstep
    cases hinvoke.unique hload

/-- The entry point stores a string and an array in the static fields. -/
def storedFields : Image where
  classes := [⟨0, none, 0⟩]
  methods := #[⟨0, 0, 0, 0, 1, .bytecode 0 12⟩]
  constants := #[.str "a"]
  code := #[0x12, 0x00, 0xb3, 0x00, 0x00, 0x04, 0xbc, 0x0a, 0xb3, 0x00, 0x01,
    0xb1]
  staticFields := 2
  main := ⟨0, 0⟩

/-- What a static field has, the machine holds. -/
theorem Founded.held_of_staticField (hm : m.Founded p) {i : Nat}
    (hv : m.staticField i = .ok v) : m.Held v := by
  obtain ⟨entry, -, -, hslot⟩ := Heap.load_ok hm.sound.laid hv
  exact .slot (Array.mem_of_getElem? hslot)

/-- A string and an array in static fields that were empty before. -/
theorem references_grounded_storedFields : ∃ m m' : Machine Unit,
    Rests .unix storedFields m' ∧
    (∃ v, m'.staticField 0 = .ok v ∧
      v.Grounded (.load .unix storedFields) m'.statics m'.store.heap ∧
      Strings.read m'.store.heap storedFields v = .ok "a") ∧
    (∃ r, m'.staticField 1 = .ok (.ref r) ∧ m'.store.heap.Contains r ∧
      r ≠ m'.statics) ∧
    ∃ m0 n, start storedFields.main m = .ok () m0 ∧ Reaches m0 n ∧
      n.WritesStatics := by
  have htest : (fresh? .unix storedFields).any (fun m =>
      (ended? 6 storedFields.main m).any fun x =>
        (m.staticField 1).toOption.any (·.isNull) &&
        ((x.2.staticField 1).toOption.any fun v =>
          (v.asHandle "").toOption.isSome && !v.isNull) &&
        (x.2.staticField 0).toOption.any fun v =>
          (Strings.read x.2.store.heap storedFields v).toOption == some "a") =
        true := by decide +kernel
  simp only [Option.any_eq_true, Bool.and_eq_true, beq_iff_eq,
    Option.isSome_iff_exists, Bool.not_eq_true'] at htest
  obtain ⟨m, hfresh, ⟨value, m'⟩, hended,
    ⟨⟨w, hw, hempty⟩, a, ha, ⟨r, hhandle⟩, hfull⟩, v, hv, hread⟩ := htest
  have hm := rests_of_fresh hfresh
  have hrun := run_of_ended hended
  have hm' : Rests .unix storedFields m' := .finished hm hrun
  have hv := eq_ok_of_toOption hv
  have ha := eq_ok_of_toOption ha
  obtain rfl := Value.asHandle_ok (eq_ok_of_toOption hhandle)
  obtain ⟨hheld, -, hstatics, -⟩ :=
    references_grounded (δ := Unit) .unix storedFields
  have hgrounded := hheld m' v (.inl hm') (hm'.founded.held_of_staticField hv)
  obtain ⟨hcontains, hne⟩ :=
    hheld m' (.ref r) (.inl hm') (hm'.founded.held_of_staticField ha)
  refine ⟨m, m', hm', ⟨v, hv, hgrounded, eq_ok_of_toOption hread⟩,
    ⟨r, ha, hcontains, hne⟩, ?_⟩
  rcases hstatics m m' 6 storedFields.main hm (.inl ⟨_, hrun⟩) with
    hwrites | hsame
  · exact hwrites
  · have hold := (hsame 1).symm.trans ha
    cases (eq_ok_of_toOption hw).symm.trans hold
    cases hempty.symm.trans hfull

end Machine

end SlotVm
