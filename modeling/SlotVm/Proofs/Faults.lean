import SlotVm.Proofs.Machine.Session

/-!
# Faults of the entry point

A run of the entry point ends with a fault of one of its steps, and
`Machine.Raises` says what a step has to be like for each fault.  So a fault
is about the program that runs or about the bounds of its configuration.  The
faults that stand for a broken machine cannot occur: the checks of a program
and the two invariants rule them out.
-/

namespace SlotVm.Machine

open SlotVm.Action

variable {δ : Type} {config : Config} {image : Image} {p : Program}
variable {m m' : Machine δ} {e : Fault}

/-- A fault of a run on the entry point comes from one of its steps. -/
theorem runMain_error_step (hm : m.Founded p) {fuel : Nat}
    (h : runMain fuel m = .error e m') :
    ∃ m0 n m1, start p.image.main m = .ok () m0 ∧ Starts p m m0 ∧
      Reaches m0 n ∧ step n = .error e m1 ∧ Logged m1 m' := by
  obtain rfl := hm.program_eq
  have hrun : run fuel m.program.image.main m = .error e m' := h
  rcases (run_ends fuel _ hm).of_error hrun with ⟨-, hentry⟩ | hstep
  · obtain ⟨index, hindex⟩ := entryIndex_main hm.valid
    cases hindex.symm.trans hentry
  · exact hstep

/-- What a fault of the entry point says about the step that it stopped. -/
theorem runMain_raises {fuel : Nat} (hm : Rests config image m)
    (h : runMain fuel m = .error e m') :
    ∃ m0 n m1, start image.main m = .ok () m0 ∧ Reaches m0 n ∧
      step n = .error e m1 ∧ Logged m1 m' ∧ n.Raises (.load config image) e := by
  obtain ⟨m0, n, m1, hstart, hstarts, hreach, hstep, hlogged⟩ :=
    runMain_error_step hm.founded h
  obtain ⟨hm0, ha0⟩ := hstarts.turn hm.founded
  obtain ⟨hn, han⟩ := hreach.invariant hm0 ha0
  exact ⟨m0, n, m1, hstart, hreach, hstep, hlogged, step_error hn han hstep⟩

/-- The entry point asks for a constant that is not there. -/
def missingConstant : Image where
  classes := [⟨0, none, 0⟩]
  methods := #[⟨0, 0, 0, 0, 1, .bytecode 0 3⟩]
  constants := #[]
  code := #[0x12, 0x00, 0xb1]
  staticFields := 0
  main := ⟨0, 0⟩

/-- The fault of a missing constant is one of `ldc`. -/
theorem runMain_raises_missingConstant : ∃ m m' : Machine Unit,
    Rests .unix missingConstant m ∧
    runMain 1 m = .error (.invalidConstant 0) m' ∧
    ∃ n : Machine Unit, ∃ operand : UInt8,
      n.Executes (.byteOperand .loadConstant operand) ∧ operand.toNat = 0 := by
  have htest : (fresh? .unix missingConstant).any (fun m =>
      (stopped? 1 m).any fun x => x.1 == .invalidConstant 0) = true := by
    decide +kernel
  simp only [Option.any_eq_true, beq_iff_eq] at htest
  obtain ⟨m, hfresh, ⟨e, m'⟩, hstopped, rfl⟩ := htest
  have hm := rests_of_fresh hfresh
  have hrun := runMain_of_stopped hstopped
  obtain ⟨m0, n, m1, -, -, -, -, operand, hload, hzero, -⟩ :=
    runMain_raises hm hrun
  exact ⟨m, m', hm, hrun, n, operand, hload, hzero⟩

end SlotVm.Machine
