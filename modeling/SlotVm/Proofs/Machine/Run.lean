import SlotVm.Proofs.Machine.Step

/-!
# Runs

A run is a beginning and then step after step.  `Machine.Starts` says what
the beginning does, and `Machine.Reaches` relates the machines that come
after each other while the run goes on.

There are three groups of lemmas.

* The beginning.  A run begins unless there is no method to begin with
  (`start_ends`), and the entry point of a valid program is one
  (`entryIndex_main`).
* What is preserved.  A machine that is reached satisfies both invariants
  (`Reaches.invariant`).
* How the functions that run a machine are made of steps: `runSteps_ends`,
  `finish_ends` and `run_ends`, one for each of them.  The reports at the end
  change the log only (`Machine.Logged`).
-/

namespace SlotVm.Machine

open SlotVm.Action Store

variable {δ : Type} {p : Program} {m m' n : Machine δ} {e : Fault}
variable {fuel : Nat} {entry : MethodRef} {value : Option Value}

/-! ## The beginning of a run -/

/-- The first call begins, on an empty operand stack. -/
structure Starts (p : Program) (m m' : Machine δ) : Prop
    extends Keeps m m' where
  frame : ∃ index method, p.image.methods[index]? = some method ∧
    method.isNative = false ∧
    m'.frames = [.enter index method.frameLocals #[] 0]
  values_eq : m'.store.stack.values = #[]
  floor_eq : m'.store.stack.floor = 0
  limit_eq : m'.store.stack.limit = m.store.stack.limit
  heap_eq : m'.store.heap = m.store.heap
  console_eq : m'.store.console = m.store.console

/-- The entry of a run is a method with code. -/
theorem entryIndex_ok {index : Nat} (h : entryIndex p entry = .ok index) :
    ∃ method, p.image.methods[index]? = some method ∧
      method.isNative = false := by
  obtain ⟨found, hfound, h⟩ := bind_eq_ok h
  cases found with
  | native r => cases h
  | method index' =>
    obtain ⟨method, hmethod⟩ := Image.resolve_present hfound
    simp only [Image.method_of_entry hmethod, bind, Except.bind] at h
    cases hcode : method.isNative with
    | true =>
      rw [hcode] at h
      cases h
    | false =>
      rw [hcode] at h
      cases h
      exact ⟨method, hmethod, hcode⟩

/-- The faults of a run that does not begin. -/
theorem entryIndex_error (hp : p.Valid) (h : entryIndex p entry = .error e) :
    e = .unresolvedMethod entry ∨ e = .unknownClass entry.classId ∨
      e = .invalidImage (.entryWithoutCode entry) := by
  rcases bind_eq_error h with hresolve | ⟨found, hfound, h⟩
  · rcases hp.image.resolve_error hresolve with rfl | ⟨-, rfl⟩
    · exact .inl rfl
    · exact .inr (.inl rfl)
  · cases found with
    | native r =>
      cases h
      exact .inr (.inr rfl)
    | method index =>
      obtain ⟨method, hmethod⟩ := Image.resolve_present hfound
      simp only [Image.method_of_entry hmethod, bind, Except.bind] at h
      cases hcode : method.isNative with
      | true =>
        rw [hcode] at h
        cases h
        exact .inr (.inr rfl)
      | false =>
        rw [hcode] at h
        cases h

/-- The entry point of a valid program is a method to begin with. -/
theorem entryIndex_main (hp : p.Valid) :
    ∃ index, entryIndex p p.image.main = .ok index := by
  obtain ⟨index, method, hresolve, hmethod, hcode⟩ := hp.image.resolve_main
  refine ⟨index, ?_⟩
  unfold entryIndex
  simp only [hresolve, Image.method_of_entry hmethod, hcode, bind, Except.bind]
  rfl

/-- A run begins unless there is no method to begin with. -/
theorem start_ends (hm : m.Founded p) (entry : MethodRef) :
    Ends (start entry) m (fun _ m' => Starts p m m')
      (fun e m' => m' = m ∧ entryIndex p entry = .error e) := by
  obtain rfl := hm.program_eq
  refine Ends.bind_ok rfl ?_
  have hindex : Ends (Action.lift (entryIndex m.program entry)) m
      (fun index u => u = m ∧ entryIndex m.program entry = .ok index)
      (fun e m' => m' = m ∧ entryIndex m.program entry = .error e) :=
    Ends.lift (fun index h => ⟨rfl, h⟩) fun e h => ⟨rfl, h⟩
  refine hindex.bind ?_
  intro index u hend
  obtain ⟨rfl, hindex⟩ := hend
  obtain ⟨method, hmethod, hcode⟩ := entryIndex_ok hindex
  refine Ends.bind_ok (lift_of_ok (Image.method_of_entry hmethod)) ?_
  refine (record_ends _ _ _).bind ?_
  intro _ v hend
  obtain ⟨t, rfl, hsame⟩ := hend
  refine Ends.bind_ok rfl ?_
  unfold Ends Machine.enter
  simp only [List.length_nil, if_pos hm.valid.depth_pos]
  exact {
    program_eq := rfl
    bridge_eq := rfl
    statics_eq := rfl
    frame := ⟨index, method, hmethod, hcode, rfl⟩
    values_eq := by simp [Stack.setFloor, Stack.truncate]
    floor_eq := rfl
    limit_eq := by simp [Stack.setFloor, Stack.truncate, hsame.stack_eq]
    heap_eq := hsame.heap_eq
    console_eq := hsame.console_eq }

/-- The invariants hold at the beginning of a run. -/
theorem Starts.turn (h : Starts p m m') (hm : m.Founded p) :
    m'.Founded p ∧ m'.Active p := by
  obtain ⟨index, method, hmethod, hcode, hframes⟩ := h.frame
  have hsize : m'.store.stack.size = 0 := by
    unfold Stack.size
    rw [h.values_eq]
    rfl
  have hm' : m'.Founded p := by
    apply h.toKeeps.founded hm
    · apply hm.sound.setStack h.heap_eq
      · exact ⟨by rw [h.floor_eq]; exact Nat.zero_le _,
          by rw [hsize]; exact Nat.zero_le _⟩
      · intro v hv
        rw [h.values_eq] at hv
        exact absurd hv (Array.not_mem_empty v)
    · exact h.limit_eq
    · rw [hframes]
      intro f hf v hv
      rw [List.mem_singleton.1 hf] at hv
      rcases Array.mem_append.1 hv with hnone | hnull
      · exact absurd hnone (Array.not_mem_empty v)
      · rw [(Array.mem_replicate.1 hnull).2]
        trivial
  refine ⟨hm', ?_⟩
  have hbases : m'.bases = [0] := bases_of_frames hframes
  have hdepth : m'.depth = 1 := by
    unfold depth
    rw [hframes]
    rfl
  constructor
  · omega
  · rw [hdepth]
    exact hm.valid.depth_pos
  · rw [hbases]
    rfl
  · rw [hbases]
    exact List.pairwise_singleton _ _
  · rw [hbases, h.floor_eq]
    rfl
  · exact hm'.sound.bounded.floor_le
  · exact hm'.size_le
  · rw [hframes]
    intro f hf
    rw [List.mem_singleton.1 hf]
    exact fits_enter hmethod hcode (Nat.zero_le _)

/-! ## Step after step -/

/-- The machine is reached while the run goes on. -/
inductive Reaches : Machine δ → Machine δ → Prop where
  | refl (m : Machine δ) : Reaches m m
  | tail {m n m' : Machine δ} : Reaches m n → step n = .ok .running m' →
      Reaches m m'

theorem Reaches.head (hstep : step m = .ok .running n) (h : Reaches n m') :
    Reaches m m' := by
  induction h with
  | refl => exact .tail (.refl m) hstep
  | tail _ hlast ih => exact .tail ih hlast

/-- Both invariants hold of every machine that is reached. -/
theorem Reaches.invariant (h : Reaches m m') (hm : m.Founded p)
    (ha : m.Active p) : m'.Founded p ∧ m'.Active p := by
  induction h with
  | refl => exact ⟨hm, ha⟩
  | tail _ hstep ih =>
    obtain ⟨hn, han⟩ := ih
    have hto := (step_ends hn han).of_ok hstep
    exact ⟨hto.founded, hto.active⟩

theorem runSteps_succ (fuel : Nat) (m : Machine δ) :
    runSteps (fuel + 1) m =
      match step m with
      | .ok .running n => runSteps fuel n
      | .ok (.finished value) n => .ok (.finished value) n
      | .error e n => .error e n := by
  simp only [runSteps, Bind.bind, EStateM.bind]
  cases step m with
  | error e n => rfl
  | ok flow n =>
    cases flow with
    | running => rfl
    | finished value => rfl

/-- How the steps of a run end. -/
theorem runSteps_ends (fuel : Nat) (m : Machine δ) :
    Ends (runSteps fuel) m
      (fun outcome m' => match outcome with
        | .unfinished => Reaches m m'
        | .finished value => ∃ n, Reaches m n ∧
            step n = .ok (.finished value) m')
      (fun e m' => ∃ n, Reaches m n ∧ step n = .error e m') := by
  induction fuel generalizing m with
  | zero => exact .refl m
  | succ fuel ih =>
    unfold Ends
    rw [runSteps_succ]
    cases hstep : step m with
    | error e n => exact ⟨m, .refl m, hstep⟩
    | ok flow n =>
      cases flow with
      | finished value => exact ⟨m, .refl m, hstep⟩
      | running =>
        have hend := ih n
        simp only
        apply hend.mono
        · intro outcome m' h
          cases outcome with
          | unfinished => exact .head hstep h
          | finished value =>
            obtain ⟨last, hreach, hlast⟩ := h
            exact ⟨last, .head hstep hreach, hlast⟩
        · intro e m' hend
          obtain ⟨last, hreach, hlast⟩ := hend
          exact ⟨last, .head hstep hreach, hlast⟩

/-- One more step of a run that is still active. -/
theorem runSteps_snoc (h : runSteps fuel m = .ok .unfinished n)
    (hstep : step n = .ok .running m') :
    runSteps (fuel + 1) m = .ok .unfinished m' := by
  induction fuel generalizing m with
  | zero =>
    cases h
    rw [runSteps_succ, hstep]
    rfl
  | succ fuel ih =>
    rw [runSteps_succ] at h ⊢
    cases hfirst : step m with
    | error e k =>
      rw [hfirst] at h
      cases h
    | ok flow k =>
      rw [hfirst] at h
      cases flow with
      | finished value => cases h
      | running => exact ih h

/-- One more step may be taken, or the steps have ended before. -/
theorem runSteps_last (fuel : Nat) (m : Machine δ) :
    runSteps (fuel + 1) m = runSteps fuel m ∨
      ∃ n, runSteps fuel m = .ok .unfinished n ∧
        ∀ u, Leaves (runSteps (fuel + 1)) m u → Leaves step n u := by
  induction fuel generalizing m with
  | zero =>
    refine .inr ⟨m, rfl, ?_⟩
    intro u h
    unfold Leaves at h
    rw [runSteps_succ] at h
    cases hstep : step m with
    | error e n =>
      rw [hstep] at h
      rcases h with ⟨_, hok⟩ | ⟨_, herror⟩
      · cases hok
      · cases herror
        exact .inr ⟨e, hstep⟩
    | ok flow n =>
      rw [hstep] at h
      cases flow with
      | running | finished value =>
        rcases h with ⟨_, hok⟩ | ⟨_, herror⟩
        · cases hok
          exact .inl ⟨_, hstep⟩
        · cases herror
  | succ fuel ih =>
    unfold Leaves
    rw [runSteps_succ (fuel + 1), runSteps_succ fuel]
    cases step m with
    | error e n => exact .inl rfl
    | ok flow n =>
      cases flow with
      | finished value => exact .inl rfl
      | running => exact ih n

/-! ## Whole runs -/

/-- The machines differ in their logs at most. -/
structure Logged (m m' : Machine δ) : Prop extends Keeps m m' where
  frames_eq : m'.frames = m.frames
  same : Store.Same m.store m'.store

theorem Logged.refl (m : Machine δ) : Logged m m :=
  ⟨⟨rfl, rfl, rfl⟩, rfl, rfl, rfl, rfl⟩

theorem reportEnd_ends (entry : MethodRef) (value : Option Value)
    (m : Machine δ) :
    Ends (do reportEnd entry; return Outcome.finished value) m
      (fun outcome m' => outcome = .finished value ∧ Logged m m')
      (fun _ _ => False) := by
  refine Ends.bind (?_ : Ends _ _ (fun _ m' => Logged m m') _) ?_
  · refine Ends.bind_ok rfl ?_
    apply (record_ends _ _ _).imp
    intro _ w hend
    obtain ⟨t, rfl, hsame⟩ := hend
    exact ⟨⟨rfl, rfl, rfl⟩, rfl, hsame⟩
  · exact fun _ _ hlogged => Ends.pure ⟨rfl, hlogged⟩

theorem logged_reportFault (e : Fault) (m : Machine δ) :
    Logged m (reportFault e m) :=
  ⟨⟨rfl, rfl, rfl⟩, rfl, rfl, rfl, rfl⟩

theorem finish_ends (fuel : Nat) (entry : MethodRef) (m : Machine δ) :
    Ends (finish fuel entry) m
      (fun outcome m' => match outcome with
        | .unfinished => Reaches m m'
        | .finished value => ∃ n m1, Reaches m n ∧
            step n = .ok (.finished value) m1 ∧ Logged m1 m')
      (fun e m' => ∃ n m1, Reaches m n ∧ step n = .error e m1 ∧
        Logged m1 m') := by
  have hsteps := runSteps_ends fuel m
  apply Ends.intro
  · intro outcome m' hfinish
    unfold finish at hfinish
    split at hfinish
    · rename_i value m1 hrun
      obtain ⟨n, hreach, hstep⟩ := hsteps.of_ok hrun
      obtain ⟨rfl, hlogged⟩ := (reportEnd_ends entry value m1).of_ok hfinish
      exact ⟨n, m1, hreach, hstep, hlogged⟩
    · rename_i m1 hrun
      cases hfinish
      exact hsteps.of_ok hrun
    · cases hfinish
  · intro e m' hfinish
    unfold finish at hfinish
    split at hfinish
    · rename_i value m1 hrun
      exact ((reportEnd_ends entry value m1).of_error hfinish).elim
    · cases hfinish
    · rename_i e' m1 hrun
      cases hfinish
      obtain ⟨n, hreach, hstep⟩ := hsteps.of_error hrun
      exact ⟨n, m1, hreach, hstep, logged_reportFault e m1⟩

/-- What is left when the steps have ended and the end has been reported. -/
theorem finish_leaves (h : Leaves (finish fuel entry) m m') :
    ∃ u, Leaves (runSteps fuel) m u ∧ Logged u m' := by
  rcases h with ⟨outcome, hok⟩ | ⟨e, herror⟩
  · unfold finish at hok
    split at hok
    · rename_i value u hrun
      exact ⟨u, .inl ⟨_, hrun⟩, ((reportEnd_ends entry value u).of_ok hok).2⟩
    · rename_i u hrun
      cases hok
      exact ⟨m', .inl ⟨_, hrun⟩, .refl m'⟩
    · cases hok
  · unfold finish at herror
    split at herror
    · rename_i value u hrun
      exact ((reportEnd_ends entry value u).of_error herror).elim
    · cases herror
    · rename_i e' u hrun
      cases herror
      exact ⟨u, .inr ⟨_, hrun⟩, logged_reportFault e u⟩

/-- How a run ends.  It does not begin if there is no method to begin
with. -/
theorem run_ends (fuel : Nat) (entry : MethodRef) (hm : m.Founded p) :
    Ends (run fuel entry) m
      (fun outcome m' => ∃ m0, start entry m = .ok () m0 ∧ Starts p m m0 ∧
        match outcome with
        | .unfinished => Reaches m0 m'
        | .finished value => ∃ n m1, Reaches m0 n ∧
            step n = .ok (.finished value) m1 ∧ Logged m1 m')
      (fun e m' => m' = m ∧ entryIndex p entry = .error e ∨
        ∃ m0 n m1, start entry m = .ok () m0 ∧ Starts p m m0 ∧
          Reaches m0 n ∧ step n = .error e m1 ∧ Logged m1 m') := by
  refine ((start_ends hm entry).with_end.imp_fail
    fun e m' h => .inl h.2).bind ?_
  intro _ m0 hend
  obtain ⟨hstart, hstarts⟩ := hend
  apply (finish_ends fuel entry m0).mono
  · exact fun outcome m' h => ⟨m0, hstart, hstarts, h⟩
  · intro e m' hend
    obtain ⟨n, m1, hreach, hstep, hlogged⟩ := hend
    exact .inr ⟨m0, n, m1, hstart, hstarts, hreach, hstep, hlogged⟩

/-- What a run leaves.  A run that has begun has come to some machine, and
has perhaps made a last step and reported its end. -/
theorem run_leaves (hm : m.Founded p) (h : Leaves (run fuel entry) m m') :
    m' = m ∨ ∃ m0 n, start entry m = .ok () m0 ∧ Starts p m m0 ∧
      Reaches m0 n ∧ (m' = n ∨ ∃ m1, Leaves step n m1 ∧ Logged m1 m') := by
  rcases h with ⟨outcome, hok⟩ | ⟨e, herror⟩
  · obtain ⟨m0, hstart, hstarts, hend⟩ := (run_ends fuel entry hm).of_ok hok
    cases outcome with
    | unfinished => exact .inr ⟨m0, m', hstart, hstarts, hend, .inl rfl⟩
    | finished value =>
      obtain ⟨n, m1, hreach, hstep, hlogged⟩ := hend
      exact .inr ⟨m0, n, hstart, hstarts, hreach,
        .inr ⟨m1, .inl ⟨_, hstep⟩, hlogged⟩⟩
  · rcases (run_ends fuel entry hm).of_error herror with
      ⟨rfl, -⟩ | ⟨m0, n, m1, hstart, hstarts, hreach, hstep, hlogged⟩
    · exact .inl rfl
    · exact .inr ⟨m0, n, hstart, hstarts, hreach,
        .inr ⟨m1, .inr ⟨_, hstep⟩, hlogged⟩⟩

/-- A run that makes no step yet. -/
theorem run_zero (hstart : start entry m = .ok () n) :
    run 0 entry m = .ok .unfinished n := by
  unfold run
  rw [seq_of_ok hstart]
  rfl

/-- A run of one more instruction has made one more step, or it has ended
before. -/
theorem run_leaves_succ (h : Leaves (run (fuel + 1) entry) m m') :
    Leaves (run fuel entry) m m' ∨ ∃ n u,
      run fuel entry m = .ok .unfinished n ∧ Leaves step n u ∧ Logged u m' := by
  unfold Leaves run at *
  cases hstart : start entry m with
  | error e u =>
    simp only [Bind.bind, EStateM.bind, hstart] at h ⊢
    exact .inl h
  | ok _ m0 =>
    rw [seq_of_ok hstart] at h ⊢
    rcases runSteps_last fuel m0 with hsame | ⟨n, hsteps, hlast⟩
    · refine .inl ?_
      unfold finish at h ⊢
      rw [hsame] at h
      exact h
    · obtain ⟨u, hu, hlogged⟩ := finish_leaves h
      refine .inr ⟨n, u, ?_, hlast u hu, hlogged⟩
      unfold finish
      rw [hsteps]

/-- A run that makes one more step. -/
theorem run_snoc (h : run fuel entry m = .ok .unfinished n)
    (hstep : step n = .ok .running m') :
    run (fuel + 1) entry m = .ok .unfinished m' := by
  unfold run at h ⊢
  obtain ⟨_, m0, hstart, hfinish⟩ := seq_eq_ok h
  rw [seq_of_ok hstart]
  simp only [finish] at hfinish ⊢
  cases hsteps : runSteps fuel m0 with
  | error e k =>
    rw [hsteps] at hfinish
    cases hfinish
  | ok outcome k =>
    rw [hsteps] at hfinish
    cases outcome with
    | finished value => exact absurd hfinish (fun h => by cases h)
    | unfinished =>
      cases hfinish
      rw [runSteps_snoc hsteps hstep]

end SlotVm.Machine
