import SlotVm.Proofs.References

/-!
# What a fault leaves behind

An operation can find a fault when it has already taken its operands off the
stack or allocated a new string.  What it has done by then is confined to the
current call: `Machine.Confined` says that the callers, their values, every
object of the heap and the console are as before.  Only the position of the
current call, the values above its base, the log and the objects behind the
old ones can differ.

`faults_confined` says this of every step that stops at a fault, and of what
a whole run leaves that ends with one.
-/

namespace SlotVm.Machine

open SlotVm.Action

variable {δ : Type} {config : Config} {image : Image} {p : Program}
variable {m m' n : Machine δ} {e : Fault}

/-- The machines differ in the position and the operands of the current call
at most, and in objects that have been added. -/
structure Confined (m m' : Machine δ) : Prop extends Keeps m m' where
  calls : ∃ f callers pc, m.frames = f :: callers ∧
    m'.frames = { f with pc } :: callers ∧ f.base ≤ m.store.stack.size ∧
    m'.store.stack.values.toList.take f.base =
      m.store.stack.values.toList.take f.base
  objects : ∀ r, m.store.heap.Contains r →
    m'.store.heap.header r = m.store.heap.header r ∧
    m'.store.heap.slots r = m.store.heap.slots r
  sameStatics : SameStatics m m'
  output_eq : m'.store.console.output = m.store.console.output

/-- What differs in the log only is confined too. -/
theorem Confined.logged (h : Confined m n) (hlogged : Logged n m') :
    Confined m m' where
  program_eq := hlogged.program_eq.trans h.program_eq
  bridge_eq := hlogged.bridge_eq.trans h.bridge_eq
  statics_eq := hlogged.statics_eq.trans h.statics_eq
  calls := by
    rw [hlogged.frames_eq, hlogged.same.stack_eq]
    exact h.calls
  objects := by
    rw [hlogged.same.heap_eq]
    exact h.objects
  sameStatics := h.sameStatics.trans
    (hlogged.toKeeps.sameStatics hlogged.same.heap_eq)
  output_eq := by
    rw [hlogged.same.console_eq]
    exact h.output_eq

/-- The base of the current call is the floor of the stack. -/
theorem Active.base_eq {f : Frame} {callers : List Frame} (ha : m.Active p)
    (hframes : m.frames = f :: callers) : f.base = m.store.stack.floor := by
  have hbase := ha.current_base
  rw [bases_of_frames hframes] at hbase
  exact Option.some.inj hbase

/-- A fetch that fails leaves everything as it is. -/
theorem Active.confined_self (ha : m.Active p) : Confined m m := by
  obtain ⟨f, callers, hframes⟩ := List.exists_cons_of_length_pos ha.depth_pos
  have hbase : f.base ≤ m.store.stack.size := by
    rw [ha.base_eq hframes]
    exact ha.floor_le
  exact {
    program_eq := rfl
    bridge_eq := rfl
    statics_eq := rfl
    calls := ⟨f, callers, f.pc, hframes, hframes, hbase, rfl⟩
    objects := fun _ _ => ⟨rfl, rfl⟩
    sameStatics := fun _ => rfl
    output_eq := rfl }

/-- An operation that stops at a fault has written nothing, and what it did to
the stack lies above the floor. -/
theorem FaultsIn.confined (h : FaultsIn p m e m') (ha : m.Active p) :
    Confined m m' := by
  have hstatics := h.sameStatics
  rcases h with ⟨rfl, -⟩ | ⟨i, f, callers, n, hpoised, hhalts⟩
  · exact ha.confined_self
  · -- The fetch in front of the operation changes the position and the log.
    have hsame := hpoised.same
    have hquiet := hhalts.quiet.of_same hsame
    have hbase := ha.base_eq hpoised.frames_eq
    have hlaid : m.store.heap.Laid := by
      rw [← hsame.heap_eq]
      exact hpoised.turn.founded.sound.laid
    exact {
      program_eq := hhalts.program_eq.trans hpoised.program_eq
      bridge_eq := hhalts.bridge_eq.trans hpoised.bridge_eq
      statics_eq := hhalts.statics_eq.trans hpoised.statics_eq
      calls := by
        refine ⟨f, callers, i.next, hpoised.frames_eq, ?_, ?_, ?_⟩
        · rw [hhalts.frames_eq, hpoised.turn.frames_eq]
        · rw [hbase]
          exact ha.floor_le
        · have hbelow := hquiet.stack.below_eq
          unfold Stack.below at hbelow
          rw [hquiet.stack.floor_eq] at hbelow
          rw [hbase]
          exact hbelow
      objects := fun r hr =>
        ⟨hquiet.toChange.header_kept hr,
          hquiet.toChange.slots_kept hlaid id hr⟩
      sameStatics := hstatics
      output_eq := hquiet.output_eq }

/-- A step that stops at a fault leaves the callers, their values, the heap
objects, the static fields and the console as they were, and so does a run
that ends with one. -/
theorem faults_confined (config : Config) (image : Image) :
    (∀ (m m' : Machine δ) (e : Fault), InRun config image m →
      step m = .error e m' →
      m.store.heap.Contains m.statics ∧ Confined m m') ∧
    ∀ (m m' : Machine δ) (fuel : Nat) (entry : MethodRef) (e : Fault),
      Rests config image m → run fuel entry m = .error e m' →
      m' = m ∨ ∃ n m1, InRun config image n ∧ step n = .error e m1 ∧
        Logged m1 m' ∧ Confined n m' := by
  have hstep : ∀ (m m' : Machine δ) (e : Fault), InRun config image m →
      step m = .error e m' →
      m.store.heap.Contains m.statics ∧ Confined m m' := by
    intro m m' e hrun herror
    obtain ⟨hm, ha⟩ := hrun.invariant
    exact ⟨hm.sound.statics, ((step_ends hm ha).of_error herror).confined ha⟩
  refine ⟨hstep, ?_⟩
  intro m m' fuel entry e hrests herror
  rcases run_error_step hrests herror with
    rfl | ⟨n, m1, hrun, hlast, hlogged⟩
  · exact .inl rfl
  · obtain ⟨-, hconfined⟩ := hstep n m1 e hrun hlast
    exact .inr ⟨n, m1, hrun, hlast, hlogged, hconfined.logged hlogged⟩

/-- The entry point keeps an array on its operand stack and calls a method
that stores behind the end of another array. -/
def outsideStore : Image where
  classes := [⟨0, none, 0⟩]
  methods := #[⟨0, 0, 0, 0, 2, .bytecode 0 8⟩, ⟨0, 1, 1, 1, 3, .bytecode 8 7⟩]
  constants := #[]
  code := #[0x05, 0xbc, 0x0a, 0x08, 0xb8, 0x00, 0x01, 0xac, 0x04, 0xbc, 0x0a,
    0x06, 0x1a, 0x4f, 0xb1]
  staticFields := 1
  main := ⟨0, 0⟩

/-- A fault of a store in the second call, which has taken its three operands
by then. -/
theorem faults_confined_outsideStore : ∃ m n m1 m' : Machine Unit,
    Rests .unix outsideStore m ∧
    runMain 10 m = .error (.arrayIndexOutOfBounds 3 1) m' ∧
    m'.depth = 2 ∧ m'.store.stack.values.size = 1 ∧
    InRun .unix outsideStore n ∧
    step n = .error (.arrayIndexOutOfBounds 3 1) m1 ∧
    n.store.heap.Contains n.statics ∧ Confined n m1 ∧ Confined n m' := by
  have htest : (fresh? .unix outsideStore).any (fun m =>
      (stopped? 10 m).any fun x => x.1 == .arrayIndexOutOfBounds 3 1 &&
        m.depth == 0 && x.2.depth == 2 &&
        x.2.store.stack.values.size == 1) = true := by
    decide +kernel
  simp only [Option.any_eq_true, Bool.and_eq_true, beq_iff_eq] at htest
  obtain ⟨m, hfresh, ⟨e, m'⟩, hstopped, ⟨⟨rfl, hidle⟩, hdepth⟩, hsize⟩ := htest
  have hm := rests_of_fresh hfresh
  have hrun := runMain_of_stopped hstopped
  obtain ⟨hstep, hwhole⟩ := faults_confined (δ := Unit) .unix outsideStore
  rcases hwhole m m' 10 m.program.image.main _ hm hrun with
    rfl | ⟨n, m1, hn, hlast, -, hconfined⟩
  · cases hidle.symm.trans hdepth
  · obtain ⟨hstatics, hconfined1⟩ := hstep n m1 _ hn hlast
    exact ⟨m, n, m1, m', hm, hrun, hdepth, hsize, hn, hlast, hstatics,
      hconfined1, hconfined⟩

end SlotVm.Machine
