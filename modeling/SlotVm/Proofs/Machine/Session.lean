import SlotVm.Proofs.Config
import SlotVm.Proofs.Machine.Run

/-!
# Machines between runs

`Machine.Rests` holds of a machine that has been created for a program and
on which any number of runs have been made, each one until it ended.  A run
that has used up the instructions it was given has not ended, and the machine
that it leaves is one on which the run is still active (`Machine.InRun`).

All theorems about a machine start here.  A machine that rests is founded
(`Rests.founded`), so a run on it keeps both invariants
(`InRun.invariant`).

The last section is about runs that are computed.  A small image is run on a
machine with an empty console (`fresh?`), and what comes out is such a
machine.
-/

namespace SlotVm

open SlotVm.Action

namespace Machine

variable {δ : Type} {config : Config} {image : Image} {m m' : Machine δ}

/-! ## Creation -/

/-- The store of a new machine holds the static fields and nothing else. -/
theorem sound_new {p : Program} {space heap : Heap} {statics : UInt16}
    {s : Store δ} {count : Nat}
    (hspace : space.objects = #[]) (hslots : space.arena.slots = #[])
    (hlaid : space.Laid)
    (halloc : Heap.allocate true count space = .ok statics heap)
    (hstack : s.stack = .empty s.stack.limit) (hheap : s.heap = heap) :
    s.Sound p statics := by
  obtain ⟨hcount, hfree, hstatics, hextend⟩ :=
    (hlaid.allocateKind_ends .chunk true count).of_ok halloc
  have hsize : (Array.replicate count
      (Heap.freshValue .chunk true)).size ≤ space.free := by
    rw [Array.size_replicate]
    exact hfree
  constructor
  · rw [hstack]
    exact ⟨Nat.le_refl _, Nat.zero_le _⟩
  · rw [hheap, hextend]
    exact hlaid.extend .chunk hcount hsize
  · rw [hstack]
    exact fun v hv => absurd hv (Array.not_mem_empty v)
  · rw [hheap]
    intro v hv
    rw [hextend, hlaid.slots_extend, hslots, Array.empty_append] at hv
    rw [Array.eq_of_mem_replicate hv]
    trivial
  · rw [hheap, hextend]
    intro entry hentry c hkind
    rw [Heap.objects_extend, hspace] at hentry
    rcases Array.mem_push.1 hentry with hold | rfl
    · exact absurd hold (Array.not_mem_empty entry)
    · cases hkind
  · rw [hheap, hextend]
    simp [Heap.Contains, hstatics]

/-- A machine that has been created with the bridge `b`. -/
structure Created (b : Bridge δ) (config : Config) (image : Image)
    (console : Console) (devices : δ) (m : Machine δ) : Prop where
  config_ok : config.check = .ok ()
  image_ok : image.check config = .ok ()
  program_eq : m.program = .load config image
  bridge_eq : m.bridge = b
  stack_eq : m.store.stack = .empty config.stackSize
  heap_eq : Heap.allocate true image.staticFields.toNat
    (.empty config.heapSize config.word.bytes) = .ok m.statics m.store.heap
  console_eq : m.store.console = console
  devices_eq : m.store.devices = devices
  frames_eq : m.frames = []
  steps_eq : m.steps = 0

theorem createWith_created (b : Bridge δ) (config : Config) (image : Image)
    (console : Console) (devices : δ) (log : Log) :
    Ends (createWith b config image console devices) log
      (fun m _ => Created b config image console devices m)
      (fun _ _ => True) := by
  refine Ends.bind (Ends.lift (fun _ h => ⟨rfl, h⟩) fun _ _ => trivial :
    Ends _ log (fun _ t => t = log ∧ config.check = .ok ()) _) ?_
  intro _ t hend
  obtain ⟨rfl, hconfig⟩ := hend
  refine Ends.bind (Ends.lift (fun _ h => ⟨rfl, h⟩) fun _ _ => trivial :
    Ends _ t (fun _ u => u = t ∧ image.check config = .ok ()) _) ?_
  intro _ u hend
  obtain ⟨rfl, himage⟩ := hend
  simp only
  split
  · exact Ends.throw trivial
  · rename_i statics heap halloc
    refine Ends.bind (?_ : Ends _ _ (fun _ _ => True) _) ?_
    · exact trivial
    · intro _ log' _
      refine Ends.bind (?_ : Ends _ _ (fun _ _ => True) _) ?_
      · exact trivial
      · intro log'' _ _
        apply Ends.pure
        exact ⟨hconfig, himage, rfl, rfl, rfl, halloc, rfl, rfl, rfl, rfl⟩

/-- A new machine with a standard bridge is founded. -/
theorem Created.founded {b : Bridge δ} {console : Console} {devices : δ}
    (h : Created b config image console devices m) (hb : b.Standard) :
    m.Founded (.load config image) where
  program_eq := h.program_eq
  valid := ⟨Image.checked_of_check h.image_ok,
    (Config.valid_of_check h.config_ok).depth_pos⟩
  standard := by
    rw [h.bridge_eq]
    exact hb
  sound := sound_new rfl (Heap.slots_empty _ _) (Heap.laid_empty _ _) h.heap_eq
    (by rw [h.stack_eq]; rfl) rfl
  limit_eq := by
    rw [h.stack_eq]
    rfl
  locals := by
    rw [h.frames_eq]
    exact fun f hf => absurd hf List.not_mem_nil

/-- A machine that has been created with the families of its profile. -/
theorem create_created (config : Config) (image : Image) (console : Console)
    (devices : δ) (log : Log) :
    Ends (create config image console devices) log
      (fun m _ => ∃ b log', Bridge.forConfig config log = .ok b log' ∧
        b.Standard ∧ Created b config image console devices m)
      (fun _ _ => True) := by
  refine (Bridge.forConfig_standard config log).with_end.imp_fail
    (fun _ _ _ => trivial) |>.bind ?_
  intro b log' hend
  obtain ⟨hbridge, hstandard⟩ := hend
  apply (createWith_created b config image console devices log').imp
  exact fun m _ hm => ⟨b, log', hbridge, hstandard, hm⟩

/-- A machine that has been created. -/
theorem create_ends (config : Config) (image : Image) (console : Console)
    (devices : δ) (log : Log) :
    Ends (create config image console devices) log
      (fun m _ => m.Founded (.load config image)) (fun _ _ => True) := by
  apply (create_created config image console devices log).imp
  intro m _ hend
  obtain ⟨b, log', -, hstandard, hm⟩ := hend
  exact hm.founded hstandard

/-! ## Runs one after another -/

/-- A machine on which no run is active. -/
inductive Rests (config : Config) (image : Image) : Machine δ → Prop where
  | created {console : Console} {devices : δ} {log log' : Log}
      {m : Machine δ} :
      create config image console devices log = .ok m log' →
      Rests config image m
  | finished {m m' : Machine δ} {fuel : Nat} {entry : MethodRef}
      {value : Option Value} :
      Rests config image m → run fuel entry m = .ok (.finished value) m' →
      Rests config image m'
  | stopped {m m' : Machine δ} {fuel : Nat} {entry : MethodRef} {e : Fault} :
      Rests config image m → run fuel entry m = .error e m' →
      Rests config image m'

/-- A machine on which a run is active. -/
def InRun (config : Config) (image : Image) (m' : Machine δ) : Prop :=
  ∃ m fuel entry, Rests config image m ∧ run fuel entry m = .ok .unfinished m'

theorem Logged.founded {p : Program} (h : Logged m m') (hm : m.Founded p) :
    m'.Founded p := by
  apply h.toKeeps.founded hm
  · exact hm.sound.of_same h.same
  · rw [h.same.stack_eq]
  · rw [h.frames_eq, h.same.heap_eq]
    exact hm.locals

theorem Logged.active {p : Program} (h : Logged m m') (ha : m.Active p)
    (hm' : m'.Founded p) : m'.Active p := by
  apply ha.of_bases hm'
  · rw [bases, bases, h.frames_eq]
  · rw [h.same.stack_eq]
  · rw [h.frames_eq]
    exact ha.fits

/-- What a run leaves behind, however it ends. -/
theorem run_invariant {p : Program} (hm : m.Founded p) (fuel : Nat)
    (entry : MethodRef) :
    Ends (run fuel entry) m
      (fun outcome m' => m'.Founded p ∧ match outcome with
        | .unfinished => m'.Active p
        | .finished _ => m'.frames = [] ∧ m'.store.stack.floor = 0)
      (fun e m' => m'.Founded p ∧
        (m' = m ∧ entryIndex p entry = .error e ∨ m'.Active p)) := by
  apply (run_ends fuel entry hm).mono
  · intro outcome m' hend
    obtain ⟨m0, -, hstart, hend⟩ := hend
    obtain ⟨hm0, ha0⟩ := hstart.turn hm
    cases outcome with
    | unfinished => exact hend.invariant hm0 ha0
    | finished value =>
      obtain ⟨n, m1, hreach, hstep, hlogged⟩ := hend
      obtain ⟨hn, han⟩ := hreach.invariant hm0 ha0
      have hto := (step_ends hn han).of_ok hstep
      refine ⟨hlogged.founded hto.founded, ?_⟩
      rw [hlogged.frames_eq, hlogged.same.stack_eq]
      exact hto.finished
  · intro e m' hend
    rcases hend with
      ⟨rfl, hentry⟩ | ⟨m0, n, m1, -, hstart, hreach, hstep, hlogged⟩
    · exact ⟨hm, .inl ⟨rfl, hentry⟩⟩
    · obtain ⟨hm0, ha0⟩ := hstart.turn hm
      obtain ⟨hn, han⟩ := hreach.invariant hm0 ha0
      have hfault := (step_ends hn han).of_error hstep
      have hm' := hlogged.founded (hfault.founded hn)
      exact ⟨hm', .inr (hlogged.active (hfault.active hn han) hm')⟩

/-- Runs keep a machine founded. -/
theorem Rests.founded (h : Rests config image m) :
    m.Founded (.load config image) := by
  induction h with
  | created hcreate => exact (create_ends _ _ _ _ _).of_ok hcreate
  | finished _ hrun ih => exact ((run_invariant ih _ _).of_ok hrun).1
  | stopped _ hrun ih => exact ((run_invariant ih _ _).of_error hrun).1

/-- Both invariants hold while a run is active. -/
theorem InRun.invariant (h : InRun config image m') :
    m'.Founded (.load config image) ∧ m'.Active (.load config image) := by
  obtain ⟨m, fuel, entry, hrests, hrun⟩ := h
  exact (run_invariant hrests.founded fuel entry).of_ok hrun

/-- A step that does not end the run leads to a machine in the run. -/
theorem InRun.step (h : InRun config image m)
    (hstep : Machine.step m = .ok .running m') : InRun config image m' := by
  obtain ⟨m0, fuel, entry, hrests, hrun⟩ := h
  exact ⟨m0, fuel + 1, entry, hrests, run_snoc hrun hstep⟩

/-- A machine that is reached from the start of a run is one in the run. -/
theorem inRun_of_reaches {m0 n : Machine δ} {entry : MethodRef}
    (hm : Rests config image m) (hstart : start entry m = .ok () m0)
    (h : Reaches m0 n) : InRun config image n := by
  induction h with
  | refl => exact ⟨m, 0, entry, hm, run_zero hstart⟩
  | tail _ hstep ih => exact ih.step hstep

/-- A run that a fault stops has not begun, or its last step stopped at the
fault. -/
theorem run_error_step {fuel : Nat} {entry : MethodRef} {e : Fault}
    (hm : Rests config image m) (h : run fuel entry m = .error e m') :
    m' = m ∨ ∃ n m1, InRun config image n ∧ Machine.step n = .error e m1 ∧
      Logged m1 m' := by
  rcases (run_ends fuel entry hm.founded).of_error h with
    ⟨rfl, -⟩ | ⟨m0, n, m1, hstart, -, hreach, hstep, hlogged⟩
  · exact .inl rfl
  · exact .inr ⟨n, m1, inRun_of_reaches hm hstart hreach, hstep, hlogged⟩

/-! ## Runs that are computed -/

/-- A machine with an empty console, if the program passes the checks. -/
def fresh? (config : Config) (image : Image) : Option (Machine Unit) :=
  match create config image (.ofBytes #[]) () (.empty .off) with
  | .ok m _ => some m
  | .error _ _ => none

/-- The machine that a run leaves when it has used up its instructions. -/
def paused? (fuel : Nat) (entry : MethodRef) (m : Machine δ) :
    Option (Machine δ) :=
  match run fuel entry m with
  | .ok .unfinished m' => some m'
  | _ => none

/-- The machine that a run leaves when it has ended. -/
def ended? (fuel : Nat) (entry : MethodRef) (m : Machine δ) :
    Option (Option Value × Machine δ) :=
  match run fuel entry m with
  | .ok (.finished value) m' => some (value, m')
  | _ => none

/-- The fault that stops a run of the entry point, and the machine that is
left. -/
def stopped? (fuel : Nat) (m : Machine δ) : Option (Fault × Machine δ) :=
  match runMain fuel m with
  | .error e m' => some (e, m')
  | .ok _ _ => none

/-- The machine after a step that does not end the run. -/
def next? (m : Machine δ) : Option (Machine δ) :=
  match step m with
  | .ok .running m' => some m'
  | _ => none

theorem create_of_fresh {m : Machine Unit}
    (h : fresh? config image = some m) :
    ∃ log, create config image (.ofBytes #[]) () (.empty .off) = .ok m log := by
  unfold fresh? at h
  split at h
  · rename_i m' log hcreate
    cases h
    exact ⟨log, hcreate⟩
  · cases h

theorem rests_of_fresh {m : Machine Unit} (h : fresh? config image = some m) :
    Rests config image m := by
  obtain ⟨log, hcreate⟩ := create_of_fresh h
  exact .created hcreate

theorem run_of_paused {fuel : Nat} {entry : MethodRef}
    (h : paused? fuel entry m = some m') :
    run fuel entry m = .ok .unfinished m' := by
  unfold paused? at h
  split at h
  · rename_i n hrun
    cases h
    exact hrun
  · cases h

theorem run_of_ended {fuel : Nat} {entry : MethodRef} {value : Option Value}
    (h : ended? fuel entry m = some (value, m')) :
    run fuel entry m = .ok (.finished value) m' := by
  unfold ended? at h
  split at h
  · rename_i value' n hrun
    cases h
    exact hrun
  · cases h

theorem runMain_of_ended {fuel : Nat} {value : Option Value}
    (hm : Rests config image m)
    (h : ended? fuel image.main m = some (value, m')) :
    runMain fuel m = .ok (.finished value) m' := by
  have hrun := run_of_ended h
  have himage : m.program.image = image := by
    rw [hm.founded.program_eq]
    rfl
  rw [← himage] at hrun
  exact hrun

theorem runMain_of_stopped {fuel : Nat} {e : Fault}
    (h : stopped? fuel m = some (e, m')) : runMain fuel m = .error e m' := by
  unfold stopped? at h
  split at h
  · rename_i e' n hrun
    cases h
    exact hrun
  · cases h

theorem step_of_next (h : next? m = some m') :
    Machine.step m = .ok .running m' := by
  unfold next? at h
  split at h
  · rename_i n hstep
    cases h
    exact hstep
  · cases h

/-- The entry point calls a method with one argument and returns what it
returns. -/
def nestedCall : Image where
  classes := [⟨0, none, 0⟩]
  methods := #[⟨0, 0, 0, 0, 1, .bytecode 0 5⟩, ⟨0, 1, 1, 1, 1, .bytecode 5 2⟩]
  constants := #[]
  code := #[0x08, 0xb8, 0x00, 0x01, 0xac, 0x1a, 0xac]
  staticFields := 0
  main := ⟨0, 0⟩

end Machine

end SlotVm
