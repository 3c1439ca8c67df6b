import SlotVm.Proofs.Machine.Session

/-!
# Invariants of a session

`Machine.Preserved` says that a property of machines is kept by the parts
that a run is made of: its start, its steps, the step that stops at a fault,
and the messages at its end.  What is preserved is kept by a whole run
(`Preserved.run`), so it holds of every machine that rests and of every
machine in a run if it holds of the machines that are created
(`Preserved.rests`, `Preserved.inRun`).

The property may rely on the two invariants of every machine,
`Machine.Founded` and `Machine.Active`.
-/

namespace SlotVm.Machine

open SlotVm.Action

variable {δ : Type} {p : Program} {J : Machine δ → Prop}
variable {m m' : Machine δ}

/-- The parts of a run keep the property. -/
structure Preserved (p : Program) (J : Machine δ → Prop) : Prop where
  starts : ∀ {m m' : Machine δ}, m.Founded p → J m → Starts p m m' → J m'
  steps : ∀ {m m' : Machine δ} {flow : Flow}, m.Founded p → m.Active p →
    J m → StepsTo p m flow m' → J m'
  faults : ∀ {m m' : Machine δ} {e : Fault}, m.Founded p → m.Active p →
    J m → FaultsIn p m e m' → J m'
  logged : ∀ {m m' : Machine δ}, J m → Logged m m' → J m'

namespace Preserved

/-- A step keeps the property, however it ends. -/
theorem step (h : Preserved p J) (hm : m.Founded p) (ha : m.Active p)
    (hj : J m) (hstep : Leaves Machine.step m m') : J m' :=
  ((step_ends hm ha).mono (fun _ _ hto => h.steps hm ha hj hto)
    fun _ _ hfault => h.faults hm ha hj hfault).of_leaves hstep

/-- So does one step after another. -/
theorem reaches (h : Preserved p J) (hm : m.Founded p) (ha : m.Active p)
    (hj : J m) (hreach : Reaches m m') : J m' := by
  induction hreach with
  | refl => exact hj
  | tail hn hlast ih =>
    obtain ⟨hfn, han⟩ := hn.invariant hm ha
    exact h.step hfn han ih (.inl ⟨_, hlast⟩)

/-- A whole run keeps the property. -/
theorem run (h : Preserved p J) (hm : m.Founded p) (hj : J m) {fuel : Nat}
    {entry : MethodRef} (hrun : Leaves (run fuel entry) m m') : J m' := by
  rcases run_leaves hm hrun with rfl | ⟨m0, n, -, hstarts, hreach, hend⟩
  · exact hj
  · obtain ⟨hm0, ha0⟩ := hstarts.turn hm
    have hn := h.reaches hm0 ha0 (h.starts hm hj hstarts) hreach
    rcases hend with rfl | ⟨m1, hleaves, hlogged⟩
    · exact hn
    · obtain ⟨hfn, han⟩ := hreach.invariant hm0 ha0
      exact h.logged (h.step hfn han hn hleaves) hlogged

/-- The property holds where the last step of a run begins. -/
theorem last (h : Preserved p J) (hm : m.Founded p) (hj : J m) {fuel : Nat}
    {entry : MethodRef} {value : Option Value}
    (hrun : Machine.run fuel entry m = .ok (.finished value) m') :
    ∃ n m1, J n ∧ StepsTo p n (.finished value) m1 ∧ Logged m1 m' := by
  obtain ⟨m0, -, hstarts, n, m1, hreach, hstep, hlogged⟩ :=
    (run_ends fuel entry hm).of_ok hrun
  obtain ⟨hm0, ha0⟩ := hstarts.turn hm
  obtain ⟨hn, han⟩ := hreach.invariant hm0 ha0
  exact ⟨n, m1, h.reaches hm0 ha0 (h.starts hm hj hstarts) hreach,
    (step_ends hn han).of_ok hstep, hlogged⟩

/-- Two properties at once. -/
theorem and {J' : Machine δ → Prop} (h : Preserved p J)
    (h' : Preserved p J') : Preserved p fun m => J m ∧ J' m where
  starts hm hj hs := ⟨h.starts hm hj.1 hs, h'.starts hm hj.2 hs⟩
  steps hm ha hj hs := ⟨h.steps hm ha hj.1 hs, h'.steps hm ha hj.2 hs⟩
  faults hm ha hj hf := ⟨h.faults hm ha hj.1 hf, h'.faults hm ha hj.2 hf⟩
  logged hj hl := ⟨h.logged hj.1 hl, h'.logged hj.2 hl⟩

variable {config : Config} {image : Image}

/-- The property holds between runs if it holds after the creation. -/
theorem rests (h : Preserved (.load config image) J)
    (hcreated : ∀ {b : Bridge δ} {console : Console} {devices : δ} {m},
      Created b config image console devices m → J m)
    (hm : Rests config image m) : J m := by
  induction hm with
  | created hcreate =>
    obtain ⟨b, log, -, -, hm⟩ := (create_created _ _ _ _ _).of_ok hcreate
    exact hcreated hm
  | finished hrests hrun ih => exact h.run hrests.founded ih (.inl ⟨_, hrun⟩)
  | stopped hrests hrun ih => exact h.run hrests.founded ih (.inr ⟨_, hrun⟩)

/-- It holds in every run then. -/
theorem inRun (h : Preserved (.load config image) J)
    (hcreated : ∀ {b : Bridge δ} {console : Console} {devices : δ} {m},
      Created b config image console devices m → J m)
    (hm : InRun config image m) : J m := by
  obtain ⟨m0, fuel, entry, hrests, hrun⟩ := hm
  exact h.run hrests.founded (h.rests hcreated hrests) (.inl ⟨_, hrun⟩)

end Preserved

end SlotVm.Machine
