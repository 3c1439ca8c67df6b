import SlotVm.Proofs.Lockstep.Session

/-!
# Limits and features only restrict

A run under small limits and few features ends as it does under larger limits
and more features, unless it stops at one of the four faults that say that a
limit was reached or a feature is missing.  The machine is the same
afterwards: its instruction count, its console, its heap, its operand stack
and its frames.
-/

namespace SlotVm

/-- The fault says that a limit was reached, or that the profile lacks a
feature. -/
def Fault.Limiting : Fault → Prop
  | .stackOverflow _ | .heapExhausted .. | .callDepthExceeded _
  | .unsupportedOpcode .. => True
  | _ => False

namespace Machine

variable {δ : Type} {c c' : Config} {image : Image} {m m' : Machine δ}

/-- Where a residue is treated alike, nothing but a limiting fault is
excused. -/
theorem limiting_of_excuses (h : c.Relaxes c')
    (hresidue : c'.residue = c.residue) {e : Fault}
    (he : (h.variation image).Excuses e) : e.Limiting := by
  cases e with
  | stackOverflow | heapExhausted | callDepthExceeded | unsupportedOpcode =>
    trivial
  | stackImbalance r residual => exact he hresidue
  | invalidImage d =>
    cases d with
    | methodIndex index => exact he hresidue
    | _ => exact he
  | _ => exact he

/-- A run under larger limits and with more features ends in the same way,
unless a limit or a feature stops it. -/
theorem limits_only_restrict (h : c.Relaxes c')
    (hresidue : c'.residue = c.residue) {console : Console} {devices : δ}
    {log logged logged' : Log}
    (hm : create c image console devices log = .ok m logged)
    (hm' : create c' image console devices log = .ok m' logged')
    (fuel : Nat) :
    (∀ outcome n, runMain fuel m = .ok outcome n →
      ∃ n', runMain fuel m' = .ok outcome n' ∧ Agrees n n') ∧
    ∀ e n, runMain fuel m = .error e n → ¬ e.Limiting →
      ∃ n', runMain fuel m' = .error e n' ∧ Agrees n n' := by
  have hrun := runMain_agrees h hm hm' fuel
  refine ⟨?_, ?_⟩
  · intro outcome n hok
    exact hrun.of_ok hok
  · intro e n herror hlimit
    apply hrun.of_error herror
    exact fun he => hlimit (limiting_of_excuses h hresidue he)

/-- A configuration with room for one call and an array of one element. -/
def tight : Config :=
  { Config.unix with
    heapSize := 4
    stackSize := 2
    maxCallDepth := 1
    features := ⟨true, false, true, false⟩ }

theorem tight_relaxes : tight.Relaxes .unix where
  codeSize_eq := rfl
  word_eq := rfl
  inheritance_eq := rfl
  storageFlag_eq := rfl
  native_eq := rfl
  families_eq := rfl
  trace_eq := rfl
  stackSize_le := by decide
  heapSize_le := by decide
  maxCallDepth_le := by decide
  arrays_le := by decide
  switch_le := by decide
  float_le := by decide
  residue_le := .inr rfl

/-- The entry point makes an array of one element and returns the element at
the index that the instruction `push` pushes. -/
def arrayOfOne (push : UInt8) : Image where
  classes := [⟨0, none, 0⟩]
  methods := #[⟨0, 0, 0, 0, 1, .bytecode 0 6⟩]
  constants := #[]
  code := #[0x04, 0xbc, 0x0a, push, 0x2e, 0xac]
  staticFields := 0
  main := ⟨0, 0⟩

/-- A run that just fits into its limits, and one with an index out of
bounds. -/
theorem limits_only_restrict_arrayOfOne :
    (∃ (m m' n n' : Machine Unit) (value : Option Value),
      Rests tight (arrayOfOne 0x03) m ∧ Rests .unix (arrayOfOne 0x03) m' ∧
      runMain 5 m = .ok (.finished value) n ∧
      runMain 5 m' = .ok (.finished value) n' ∧ Agrees n n') ∧
    ∃ m m' n n' : Machine Unit,
      Rests tight (arrayOfOne 0x04) m ∧ Rests .unix (arrayOfOne 0x04) m' ∧
      runMain 5 m = .error (.arrayIndexOutOfBounds 1 1) n ∧
      runMain 5 m' = .error (.arrayIndexOutOfBounds 1 1) n' ∧
      Agrees n n' := by
  have htest : ((fresh? tight (arrayOfOne 0x03)).any fun m =>
      (fresh? .unix (arrayOfOne 0x03)).any fun _ =>
      (ended? 5 (arrayOfOne 0x03).main m).any fun _ => true) = true := by
    decide +kernel
  have htest' : ((fresh? tight (arrayOfOne 0x04)).any fun m =>
      (fresh? .unix (arrayOfOne 0x04)).any fun _ =>
      (stopped? 5 m).any fun x => x.1 == .arrayIndexOutOfBounds 1 1) =
        true := by
    decide +kernel
  simp only [Option.any_eq_true, beq_iff_eq] at htest htest'
  constructor
  · obtain ⟨m, hfresh, m', hfresh', ⟨value, n⟩, hended, -⟩ := htest
    obtain ⟨log, hcreate⟩ := create_of_fresh hfresh
    obtain ⟨log', hcreate'⟩ := create_of_fresh hfresh'
    have hm := rests_of_fresh hfresh
    have hrun := runMain_of_ended hm hended
    obtain ⟨n', hrun', hagrees⟩ :=
      (limits_only_restrict tight_relaxes rfl hcreate hcreate' 5).1 _ n hrun
    exact ⟨m, m', n, n', value, hm, rests_of_fresh hfresh', hrun, hrun',
      hagrees⟩
  · obtain ⟨m, hfresh, m', hfresh', ⟨e, n⟩, hstopped, rfl⟩ := htest'
    obtain ⟨log, hcreate⟩ := create_of_fresh hfresh
    obtain ⟨log', hcreate'⟩ := create_of_fresh hfresh'
    have hrun := runMain_of_stopped hstopped
    obtain ⟨n', hrun', hagrees⟩ :=
      (limits_only_restrict tight_relaxes rfl hcreate hcreate' 5).2 _ n hrun
        fun h => h
    exact ⟨m, m', n, n', rests_of_fresh hfresh, rests_of_fresh hfresh', hrun,
      hrun', hagrees⟩

end Machine

end SlotVm
