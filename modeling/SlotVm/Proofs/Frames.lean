import SlotVm.Proofs.Machine.Session

/-!
# The frames of a run

While a run is active, the frames, their bases, the floor and the size of
the operand stack fit together, and every frame is at a position of the code
of its method.  `Machine.Active` is this invariant.  It holds after any
number of steps and also of the machine that a fault leaves behind; when a
run has ended without a fault, no frame is left.
-/

namespace SlotVm.Machine

variable {δ : Type} {config : Config} {image : Image} {m : Machine δ}

/-- The invariant of the frames, for every run on a machine that rests.  A
run that cannot begin leaves the machine as it was. -/
theorem frames_of_run (hm : Rests config image m) (fuel : Nat)
    (entry : MethodRef) :
    (∀ m', run fuel entry m = .ok .unfinished m' →
      m'.Active (.load config image)) ∧
    (∀ e m', run fuel entry m = .error e m' →
      m'.Active (.load config image) ∨
        m' = m ∧ entryIndex (.load config image) entry = .error e) ∧
    ∀ value m', run fuel entry m = .ok (.finished value) m' →
      m'.frames = [] ∧ m'.store.stack.floor = 0 := by
  have hend := run_invariant hm.founded fuel entry
  refine ⟨?_, ?_, ?_⟩
  · intro m' hrun
    exact (hend.of_ok hrun).2
  · intro e m' hrun
    exact (hend.of_error hrun).2.symm
  · intro value m' hrun
    exact (hend.of_ok hrun).2

/-- The invariant in the middle of a call. -/
theorem frames_of_nestedCall : ∃ m m' : Machine Unit,
    Rests .unix nestedCall m ∧
    run 3 nestedCall.main m = .ok .unfinished m' ∧ m'.depth = 2 ∧
    m'.Active (.load .unix nestedCall) := by
  have htest : (fresh? .unix nestedCall).any (fun m =>
      (paused? 3 nestedCall.main m).any fun m' => m'.depth == 2) = true := by
    decide +kernel
  simp only [Option.any_eq_true, beq_iff_eq] at htest
  obtain ⟨m, hfresh, m', hpaused, hdepth⟩ := htest
  have hm := rests_of_fresh hfresh
  have hrun := run_of_paused hpaused
  exact ⟨m, m', hm, hrun, hdepth,
    (frames_of_run hm 3 nestedCall.main).1 m' hrun⟩

end SlotVm.Machine
