import SlotVm.Proofs.Calls
import SlotVm.Proofs.Lockstep.Run

/-!
# What a call cannot see

The values that the callers of a method have on the operand stack are below
the base of its frame.  Two machines that differ in these values only do the
same, step after step, until the call returns, the last step included:
nothing that the call does, or that its own calls and native methods do,
depends on the values or changes them.

The two machines are a variation of one configuration, so no fault is
excused.  Its values out of reach are those below the base.  While the call
is active, no frame above it has a lower base, so the floor does not sink
below the base either (`Over.base_le`), and every step is one that the two
machines make together.
-/

namespace SlotVm.Machine

open SlotVm.Action

variable {δ : Type} {config : Config} {image : Image} {p : Program}
variable {m m' n n' : Machine δ} {f : Frame} {callers : List Frame}
variable {rest : List Value} {count : Nat}

/-! ## Machines that differ below a place of the stack -/

/-- The machines differ in the lowest `count` values of the operand stack at
most.  Every other part is the same. -/
structure DiffersBelow (count : Nat) (m m' : Machine δ) : Prop
    extends Keeps m m' where
  frames_eq : m'.frames = m.frames
  steps_eq : m'.steps = m.steps
  heap_eq : m'.store.heap = m.store.heap
  console_eq : m'.store.console = m.store.console
  log_eq : m'.store.log = m.store.log
  devices_eq : m'.store.devices = m.store.devices
  limit_eq : m'.store.stack.limit = m.store.stack.limit
  floor_eq : m'.store.stack.floor = m.store.stack.floor
  size_eq : m'.store.stack.size = m.store.stack.size
  above_eq : m'.store.stack.values.toList.drop count =
    m.store.stack.values.toList.drop count

/-- The machine has the lowest `count` values of `m` on its operand stack. -/
def KeepsBelow (count : Nat) (m n : Machine δ) : Prop :=
  n.store.stack.values.toList.take count =
    m.store.stack.values.toList.take count

/-- What becomes of two machines that differ below a place: they do not
differ elsewhere, and each one has kept its values there. -/
structure Apart (count : Nat) (m m' n n' : Machine δ) : Prop where
  differs : DiffersBelow count n n'
  kept : KeepsBelow count m n
  kept' : KeepsBelow count m' n'

theorem DiffersBelow.length_eq (h : DiffersBelow count m m') :
    (m'.store.stack.values.toList.take count).length =
      (m.store.stack.values.toList.take count).length := by
  have hsize := h.size_eq
  unfold Stack.size at hsize
  rw [List.length_take, List.length_take, Array.length_toList,
    Array.length_toList, hsize]

/-! ## The variation -/

/-- One program on two machines, with the values below a place out of
reach. -/
def DiffersBelow.variation (h : DiffersBelow count m m') (config : Config)
    (image : Image) : Variation where
  image
  config
  config' := config
  relaxes := .refl config
  below := m.store.stack.values.toList.take count
  below' := m'.store.stack.values.toList.take count
  length_eq := h.length_eq
  watched := True

namespace DiffersBelow

variable (h : DiffersBelow count m m')

/-- No fault is excused where the configurations are the same. -/
theorem not_excuses (e : Fault) :
    ¬ (h.variation config image).Excuses e :=
  fun he => Variation.config_ne_of_excuses he rfl

include h

theorem machines (hm : m.Founded (.load config image)) :
    (h.variation config image).Machines 0 m m' where
  program_eq := hm.program_eq
  program_eq' := h.program_eq.trans hm.program_eq
  bridge_eq := h.bridge_eq
  standard := hm.standard
  store := {
    stack := {
      values := by
        refine ⟨m.store.stack.values.toList.drop count, ?_, ?_⟩
        · exact (List.take_append_drop count _).symm
        · rw [← h.above_eq]
          exact (List.take_append_drop count _).symm
      floor_eq := h.floor_eq
      floor_le := Nat.zero_le _
      limit_le := Nat.le_of_eq h.limit_eq.symm
      limit_eq := fun _ => h.limit_eq }
    heap := ⟨hm.sound.laid, m.store.heap.capacity,
      h.heap_eq.trans (Heap.withCapacity_self _).symm, Nat.le_refl _,
      fun _ => rfl⟩
    console_eq := h.console_eq
    log_eq := fun _ => h.log_eq
    devices_eq := h.devices_eq }
  frames_eq := h.frames_eq
  base_le := fun _ _ => Nat.zero_le _
  statics_eq := h.statics_eq
  steps_eq := h.steps_eq

/-- Machines of the variation differ in the values out of reach only. -/
theorem apart (hcount : count ≤ m.store.stack.size)
    (hn : (h.variation config image).Machines 0 n n') :
    Apart count m m' n n' := by
  obtain ⟨own, hown, hown'⟩ := hn.store.stack.values
  obtain ⟨-, capacity, hheap, -, hcapacity⟩ := hn.store.heap
  obtain rfl := hcapacity rfl
  rw [Heap.withCapacity_self] at hheap
  have hlength : (h.variation config image).below.length = count := by
    unfold Stack.size at hcount
    exact List.length_take_of_le hcount
  have hlength' : (h.variation config image).below'.length = count :=
    (h.variation config image).length_eq.trans hlength
  constructor
  · exact {
      program_eq := hn.program_eq'.trans hn.program_eq.symm
      bridge_eq := hn.bridge_eq
      statics_eq := hn.statics_eq
      frames_eq := hn.frames_eq
      steps_eq := hn.steps_eq
      heap_eq := hheap
      console_eq := hn.store.console_eq
      log_eq := hn.store.log_eq trivial
      devices_eq := hn.store.devices_eq
      limit_eq := hn.store.stack.limit_eq rfl
      floor_eq := hn.store.stack.floor_eq
      size_eq := hn.size_eq
      above_eq := by
        rw [hown, hown', List.drop_left' hlength, List.drop_left' hlength'] }
  · unfold KeepsBelow
    rw [hown, List.take_left' hlength]
    rfl
  · unfold KeepsBelow
    rw [hown', List.take_left' hlength']
    rfl

end DiffersBelow

/-! ## Step after step -/

/-- The floor and the base of the current call are above what is out of reach
of a call below it. -/
theorem Over.base_le (h : Over callers rest m) (ha : m.Active p) :
    rest.length ≤ m.store.stack.floor ∧
      ∀ g ∈ m.frames.head?, rest.length ≤ g.base := by
  obtain ⟨upper, callee, hcallee, hbase⟩ := h.frames
  have hmem : callee.base ∈ m.bases := by
    unfold bases
    rw [hcallee]
    exact List.mem_map_of_mem (List.mem_append_right _ List.mem_cons_self)
  have hfloor := ha.base_le_floor hmem
  rw [hbase] at hfloor
  refine ⟨hfloor, ?_⟩
  intro g hg
  have hcurrent := ha.current_base
  unfold bases at hcurrent
  rw [List.head?_map, hg, Option.map_some, Option.some.injEq] at hcurrent
  rw [hcurrent]
  exact hfloor

/-- Two machines of a variation make a step together while a call is active
that does not reach the values out of reach. -/
theorem step_together {v : Variation} (hm : v.Machines 0 m m')
    (ha : m.Active p) (ho : Over callers v.below m) :
    Follows step step m m' (v.Machines 0) (v.Machines 0) v.Excuses := by
  obtain ⟨hfloor, hbase⟩ := ho.base_le ha
  exact Variation.InStep.step m m' (hm.raise hfloor hbase)

/-- Two machines of a variation stay together while such a call is active. -/
theorem StaysAbove.together {v : Variation}
    (hn : StaysAbove callers.length m n) (hfounded : m.Founded p)
    (ha : m.Active p) (ho : Over callers v.below m)
    (hm : v.Machines 0 m m') :
    ∃ n', StaysAbove callers.length m' n' ∧ v.Machines 0 n n' := by
  induction hn with
  | refl hdepth =>
    refine ⟨m', .refl ?_, hm⟩
    rw [hm.depth_eq]
    exact hdepth
  | tail hn hstep hdepth ih =>
    obtain ⟨n', hn', htogether⟩ := ih
    obtain ⟨-, hactive⟩ := hn.reaches.invariant hfounded ha
    have hover := hn.over hfounded ha ho
    have hend := step_together htogether hactive hover
    obtain ⟨u', hstep', hu⟩ := hend.of_ok hstep
    refine ⟨u', .tail hn' hstep' ?_, hu⟩
    rw [hu.depth_eq]
    exact hdepth

/-- As long as a call is active, two machines that differ in the values below
its base only do the same, and so they do in the step in which it returns. -/
theorem callee_isolated (hm : m.Founded (.load config image))
    (ha : m.Active (.load config image)) (hframes : m.frames = f :: callers)
    (hdiff : DiffersBelow f.base m m')
    (hn : StaysAbove callers.length m n) :
    ∃ n', StaysAbove callers.length m' n' ∧ Apart f.base m m' n n' ∧
      (∀ flow u, step n = .ok flow u →
        ∃ u', step n' = .ok flow u' ∧ Apart f.base m m' u u') ∧
      ∀ e u, step n = .error e u →
        ∃ u', step n' = .error e u' ∧ Apart f.base m m' u u' := by
  let v := hdiff.variation config image
  have hcount : f.base ≤ m.store.stack.size := by
    have hfloor := ha.current_base
    rw [bases_of_frames hframes, List.head?_cons, Option.some.injEq] at hfloor
    rw [hfloor]
    exact ha.floor_le
  have ho : Over callers v.below m := by
    refine ⟨⟨[], f, hframes, ?_⟩, List.take_prefix _ _⟩
    exact (List.length_take_of_le hcount).symm
  obtain ⟨n', hn', hmachines⟩ := hn.together hm ha ho (hdiff.machines hm)
  obtain ⟨-, hactive⟩ := hn.reaches.invariant hm ha
  have hstep := step_together hmachines hactive (hn.over hm ha ho)
  refine ⟨n', hn', hdiff.apart hcount hmachines, ?_, ?_⟩
  · intro flow u hok
    obtain ⟨u', hok', hu⟩ := hstep.of_ok hok
    exact ⟨u', hok', hdiff.apart hcount hu⟩
  · intro e u herror
    obtain ⟨u', herror', hu⟩ := hstep.of_error herror (hdiff.not_excuses e)
    exact ⟨u', herror', hdiff.apart hcount hu⟩

/-- The entry point has an operand on the stack while it calls a method. -/
def heldOperand : Image where
  classes := [⟨0, none, 0⟩]
  methods := #[⟨0, 0, 0, 0, 1, .bytecode 0 7⟩, ⟨0, 1, 1, 1, 1, .bytecode 7 2⟩]
  constants := #[]
  code := #[0x08, 0x04, 0xb8, 0x00, 0x01, 0x60, 0xac, 0x1a, 0xac]
  staticFields := 0
  main := ⟨0, 0⟩

/-- The machine with null as the only value on the operand stack. -/
def withNull (m : Machine δ) : Machine δ :=
  { m with
    store := { m.store with
      stack := { m.store.stack with values := #[.null] } } }

theorem differsBelow_withNull (h : m.store.stack.values.size = 1) :
    DiffersBelow 1 m m.withNull := by
  have hnone : m.store.stack.values.toList.drop 1 = [] := by
    apply List.drop_eq_nil_of_le
    rw [Array.length_toList]
    omega
  refine ⟨⟨rfl, rfl, rfl⟩, rfl, rfl, rfl, rfl, rfl, rfl, rfl, rfl, ?_, ?_⟩
  · exact h.symm
  · rw [hnone]
    rfl

/-- The operand of the caller is replaced by null during the call. -/
theorem callee_isolated_heldOperand :
    ∃ (m n n' u u' : Machine Unit) (f : Frame) (callers : List Frame),
      InRun .unix heldOperand m ∧ m.frames = f :: callers ∧ f.base = 1 ∧
      m.store.stack.values ≠ m.withNull.store.stack.values ∧
      DiffersBelow f.base m m.withNull ∧ StaysAbove callers.length m n ∧
      StaysAbove callers.length m.withNull n' ∧
      Apart f.base m m.withNull n n' ∧ step n = .ok .running u ∧
      step n' = .ok .running u' ∧ u.depth = callers.length ∧
      Apart f.base m m.withNull u u' := by
  have htest : (fresh? .unix heldOperand).any (fun m0 =>
      (paused? 3 heldOperand.main m0).any fun m => (next? m).any fun n =>
      (next? n).any fun u =>
        m.depth == 2 && n.depth == 2 && u.depth == 1 &&
          m.store.stack.values.size == 1 &&
          m.frames.head?.any (·.base == 1) &&
          m.store.stack.values.toList.all (!·.isNull)) = true := by
    decide +kernel
  simp only [Option.any_eq_true, Bool.and_eq_true, beq_iff_eq] at htest
  obtain ⟨m0, hfresh, m, hpaused, n, hn, u, hu, ⟨⟨⟨⟨hm, hover⟩, hback⟩, hsize⟩,
    f, hhead, hbase⟩, hall⟩ := htest
  have hrun : InRun .unix heldOperand m :=
    ⟨m0, 3, _, rests_of_fresh hfresh, run_of_paused hpaused⟩
  obtain ⟨hfounded, hactive⟩ := hrun.invariant
  obtain ⟨callers, hframes⟩ := List.head?_eq_some_iff.1 hhead
  have hdepth : callers.length = 1 := by
    unfold depth at hm
    rw [hframes, List.length_cons] at hm
    omega
  have hdiff := differsBelow_withNull hsize
  rw [← hbase] at hdiff
  have hne : m.store.stack.values ≠ m.withNull.store.stack.values := by
    intro heq
    have hnull : m.store.stack.values = #[.null] := heq
    rw [hnull] at hall
    cases hall
  have habove : StaysAbove callers.length m n :=
    .tail (.refl (by omega)) (step_of_next hn) (by omega)
  obtain ⟨n', habove', hapart, hsteps, -⟩ :=
    callee_isolated hfounded hactive hframes hdiff habove
  obtain ⟨u', hu', hapart'⟩ := hsteps .running u (step_of_next hu)
  exact ⟨m, n, n', u, u', f, callers, hrun, hframes, hbase, hne, hdiff, habove,
    habove', hapart, step_of_next hu, hu', by omega, hapart'⟩

end SlotVm.Machine
