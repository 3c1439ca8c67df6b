import SlotVm.Proofs.Faults
import SlotVm.Proofs.Lockstep.Session

/-!
# The treatment of residues

A configuration says what happens to the values that a method leaves on its
operand stack besides the one it returns.  Nothing else depends on that
policy: the checks of a configuration and of an image do not look at it
(`create_withResidue`), and a return looks at it only if there is a residue.

So a run that checks for residues and finds none ends in the same way under
the two other policies (`residue_policies_agree`).  The two machines are a
variation whose limits are all the same, and every excused fault is about the
residue (`residual_of_excuses`).  The report of a residue looks up the method
that left it, so a variation excuses a missing method too; no run on a checked
image stops there (`methodIndex_not_raised`).
-/

namespace SlotVm

/-- The configuration with another treatment of residues. -/
def Config.withResidue (c : Config) (policy : ResiduePolicy) : Config :=
  { c with residue := policy }

/-- Where residues are faults, any other policy allows what the first one
does. -/
theorem Config.relaxes_withResidue {c : Config} (hverify : c.residue = .verify)
    (policy : ResiduePolicy) : c.Relaxes (c.withResidue policy) :=
  { Config.Relaxes.refl c with residue_le := .inl hverify }

namespace Machine

open SlotVm.Action

variable {δ : Type} {c : Config} {image : Image} {m m' : Machine δ}

/-! ## Creation -/

/-- No part of the creation looks at the policy, and the program of the new
machine is the only part that has it. -/
theorem createWith_withResidue {b : Bridge δ} {console : Console}
    {devices : δ} {log logged : Log}
    (hm : createWith b c image console devices log = .ok m logged)
    (policy : ResiduePolicy) :
    createWith b (c.withResidue policy) image console devices log =
      .ok { m with program := .load (c.withResidue policy) image } logged := by
  have hspace : Heap.empty (c.withResidue policy).heapSize
    (c.withResidue policy).word.bytes = .empty c.heapSize c.word.bytes := rfl
  unfold createWith at hm ⊢
  obtain ⟨_, t, hconfig, hm⟩ := seq_eq_ok hm
  obtain ⟨_, u, himage, hm⟩ := seq_eq_ok hm
  refine (seq_of_ok hconfig).trans ((seq_of_ok himage).trans ?_)
  rw [hspace]
  cases hheap : Heap.allocate true image.staticFields.toNat
      (.empty c.heapSize c.word.bytes) with
  | error e heap =>
    simp only [hheap] at hm
    cases hm
  | ok statics heap =>
    simp only [hheap] at hm ⊢
    cases hm
    rfl

/-- A machine can be created under every policy if it can be created under
one. -/
theorem create_withResidue {console : Console} {devices : δ}
    {log logged : Log}
    (hm : create c image console devices log = .ok m logged)
    (policy : ResiduePolicy) :
    create (c.withResidue policy) image console devices log =
      .ok { m with program := .load (c.withResidue policy) image } logged := by
  obtain ⟨b, t, hbridge, hm⟩ := seq_eq_ok hm
  exact (seq_of_ok hbridge).trans (createWith_withResidue hm policy)

/-! ## Runs -/

/-- Only faults of a return are excused between two policies. -/
theorem residual_of_excuses (hverify : c.residue = .verify)
    (policy : ResiduePolicy) {e : Fault}
    (he : ((Config.relaxes_withResidue hverify policy).variation image).Excuses
      e) :
    (∃ r residual, e = .stackImbalance r residual) ∨
      ∃ index, e = .invalidImage (.methodIndex index) := by
  cases e with
  | stackImbalance r residual => exact .inl ⟨r, residual, rfl⟩
  | invalidImage d =>
    cases d with
    | methodIndex index => exact .inr ⟨index, rfl⟩
    | _ => exact absurd he id
  | stackOverflow | heapExhausted | callDepthExceeded | unsupportedOpcode =>
    exact absurd rfl he
  | _ => exact absurd he id

/-- A run of the entry point does not ask for a method that is not there. -/
theorem methodIndex_not_raised {fuel index : Nat} (hm : Rests c image m) :
    runMain fuel m ≠ .error (.invalidImage (.methodIndex index)) m' := by
  intro hrun
  -- A run reports defects of the code and unknown types of array elements.
  obtain ⟨m0, n, m1, -, -, -, -, hraises⟩ := runMain_raises hm hrun
  rcases hraises with ⟨hcode, -⟩ | ⟨typeCode, -, -, htype⟩
  · exact hcode
  · cases htype

/-- A run that stops at no residue ends in the same way under every policy,
and the machine is the same afterwards. -/
theorem residue_policies_agree (hverify : c.residue = .verify)
    (policy : ResiduePolicy) {console : Console} {devices : δ}
    {log logged : Log}
    (hm : create c image console devices log = .ok m logged) :
    ∃ m', create (c.withResidue policy) image console devices log =
        .ok m' logged ∧
      ∀ fuel,
        (∀ outcome n, runMain fuel m = .ok outcome n →
          ∃ n', runMain fuel m' = .ok outcome n' ∧ Agrees n n') ∧
        ∀ e n, runMain fuel m = .error e n →
          (∀ r residual, e ≠ .stackImbalance r residual) →
          ∃ n', runMain fuel m' = .error e n' ∧ Agrees n n' := by
  have hm' := create_withResidue hm policy
  refine ⟨_, hm', ?_⟩
  intro fuel
  have hrun := runMain_agrees (Config.relaxes_withResidue hverify policy) hm
    hm' fuel
  refine ⟨?_, ?_⟩
  · intro outcome n hok
    exact hrun.of_ok hok
  · intro e n herror hbalanced
    apply hrun.of_error herror
    intro he
    rcases residual_of_excuses hverify policy he with
      ⟨r, residual, rfl⟩ | ⟨index, rfl⟩
    · exact hbalanced r residual rfl
    · exact methodIndex_not_raised (.created hm) herror

/-- The entry point calls a method with one argument, which divides it by
zero. -/
def nestedDivision : Image where
  classes := [⟨0, none, 0⟩]
  methods := #[⟨0, 0, 0, 0, 2, .bytecode 0 6⟩, ⟨0, 1, 1, 1, 2, .bytecode 6 4⟩]
  constants := #[]
  code := #[0x08, 0x08, 0xb8, 0x00, 0x01, 0xac, 0x1a, 0x03, 0x6c, 0xac]
  staticFields := 0
  main := ⟨0, 0⟩

/-- A run that returns through two calls, and one that stops in the second
call. -/
theorem residue_policies_agree_calls :
    (∃ (m m' n n' : Machine Unit) (value : Option Value),
      Rests .unix nestedCall m ∧
      Rests (Config.unix.withResidue .discard) nestedCall m' ∧
      runMain 5 m = .ok (.finished value) n ∧
      runMain 5 m' = .ok (.finished value) n' ∧ Agrees n n') ∧
    ∃ m m' n n' : Machine Unit,
      Rests .unix nestedDivision m ∧
      Rests (Config.unix.withResidue .retain) nestedDivision m' ∧
      runMain 6 m = .error .divisionByZero n ∧
      runMain 6 m' = .error .divisionByZero n' ∧ Agrees n n' := by
  have htest : ((fresh? .unix nestedCall).any fun m =>
      (ended? 5 nestedCall.main m).any fun _ => true) = true := by
    decide +kernel
  have htest' : ((fresh? .unix nestedDivision).any fun m =>
      (stopped? 6 m).any fun x => x.1 == .divisionByZero) = true := by
    decide +kernel
  simp only [Option.any_eq_true, beq_iff_eq] at htest htest'
  constructor
  · obtain ⟨m, hfresh, ⟨value, n⟩, hended, -⟩ := htest
    obtain ⟨log, hcreate⟩ := create_of_fresh hfresh
    have hm := rests_of_fresh hfresh
    have hrun := runMain_of_ended hm hended
    obtain ⟨m', hcreate', hagree⟩ :=
      residue_policies_agree rfl .discard hcreate
    obtain ⟨n', hrun', hagrees⟩ := (hagree 5).1 _ n hrun
    exact ⟨m, m', n, n', value, hm, .created hcreate', hrun, hrun', hagrees⟩
  · obtain ⟨m, hfresh, ⟨e, n⟩, hstopped, rfl⟩ := htest'
    obtain ⟨log, hcreate⟩ := create_of_fresh hfresh
    have hrun := runMain_of_stopped hstopped
    obtain ⟨m', hcreate', hagree⟩ :=
      residue_policies_agree rfl .retain hcreate
    have hbalanced : ∀ r residual,
        Fault.divisionByZero ≠ .stackImbalance r residual := by
      intro r residual heq
      cases heq
    obtain ⟨n', hrun', hagrees⟩ := (hagree 6).2 _ n hrun hbalanced
    exact ⟨m, m', n, n', rests_of_fresh hfresh, .created hcreate', hrun, hrun',
      hagrees⟩

end Machine

end SlotVm
