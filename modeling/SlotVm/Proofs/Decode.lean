import SlotVm.Code.Decode
import SlotVm.Proofs.Action
import SlotVm.Proofs.Alignment

/-!
# Decoded instructions stay inside the code

A decoded instruction ends inside the code of its method, and a jump leads
to a position inside it (`decode_ok`).  This is what keeps the position of a
call inside the code however it moves on.  Decoding fails for malformed code
or for a byte that is no opcode (`decode_error`).

Both are read off one statement for each reader.  What is read lies inside
the code, so every reader that succeeds puts a bound on its position, and
every reader that fails does so with `invalidImage`.
-/

namespace SlotVm

/-- The operation may jump to the position. -/
def Operation.Leads (position : Nat) : Operation → Prop
  | branch _ target => position = target
  | tableSwitch fallback _ targets => position = fallback ∨ position ∈ targets
  | lookupSwitch fallback pairs =>
      position = fallback ∨ ∃ pair ∈ pairs, position = pair.2
  | plain _ | immediate .. | byteOperand .. | index .. | increment .. => False

/-- The defect is one of the code of a method. -/
def ImageDefect.OfCode : ImageDefect → Prop
  | pcOutside _ | truncatedInstruction _ | branchOutside ..
  | tableBoundsReversed .. | pairCount .. => True
  | _ => False

/-- A fault that says that the code of a method is malformed. -/
def Fault.Malformed (e : Fault) : Prop := ∃ d, d.OfCode ∧ e = .invalidImage d

theorem Fault.malformed_of {d : ImageDefect} (h : d.OfCode) :
    Malformed (.invalidImage d) := ⟨d, h, rfl⟩

namespace Instruction

variable {code : Array UInt8} {pc position count : Nat}

/-! ## Reading -/

theorem bytesAt_gives :
    Gives (bytesAt code pc position count)
      (fun _ => position + count ≤ code.size) Fault.Malformed := by
  unfold bytesAt
  split
  · assumption
  · exact Fault.malformed_of trivial

theorem byteAt_gives :
    Gives (byteAt code pc position) (fun _ => position + 1 ≤ code.size)
      Fault.Malformed :=
  bytesAt_gives.bind fun _ hend => hend

theorem shortAt_gives :
    Gives (shortAt code pc position) (fun _ => position + 2 ≤ code.size)
      Fault.Malformed :=
  bytesAt_gives.bind fun _ hend => hend

theorem wordAt_gives :
    Gives (wordAt code pc position) (fun _ => position + 4 ≤ code.size)
      Fault.Malformed :=
  bytesAt_gives.bind fun _ hend => hend

theorem target_gives {offset : Int} :
    Gives (target code pc offset) (· < code.size) Fault.Malformed := by
  unfold target
  simp only
  split
  · simp only [Gives]
    omega
  · exact Fault.malformed_of trivial

/-- The targets of a table, and the room that their offsets take. -/
theorem targetsAt_gives (hposition : position ≤ code.size) :
    Gives (targetsAt code pc count position)
      (fun targets => (∀ t ∈ targets, t < code.size) ∧
        position + 4 * count ≤ code.size)
      Fault.Malformed := by
  induction count generalizing position with
  | zero => exact ⟨fun _ ht => absurd ht List.not_mem_nil, hposition⟩
  | succ count ih =>
    refine wordAt_gives.bind fun offset hoffset => ?_
    refine target_gives.bind fun first hfirst => ?_
    refine (ih hoffset).bind fun rest hrest => ?_
    obtain ⟨htargets, hend⟩ := hrest
    refine ⟨?_, by omega⟩
    intro t ht
    rcases List.mem_cons.1 ht with rfl | ht
    · exact hfirst
    · exact htargets t ht

/-- The targets of a lookup, and the room that keys and offsets take. -/
theorem pairsAt_gives (hposition : position ≤ code.size) :
    Gives (pairsAt code pc count position)
      (fun pairs => (∀ pair ∈ pairs, pair.2 < code.size) ∧
        position + 8 * count ≤ code.size)
      Fault.Malformed := by
  induction count generalizing position with
  | zero => exact ⟨fun _ ht => absurd ht List.not_mem_nil, hposition⟩
  | succ count ih =>
    refine wordAt_gives.bind fun key _ => ?_
    refine wordAt_gives.bind fun offset hoffset => ?_
    refine target_gives.bind fun first hfirst => ?_
    refine (ih hoffset).bind fun rest hrest => ?_
    obtain ⟨hpairs, hend⟩ := hrest
    refine ⟨?_, by omega⟩
    intro pair hpair
    rcases List.mem_cons.1 hpair with rfl | hpair
    · exact hfirst
    · exact hpairs pair hpair

/-! ## Operations -/

/-- An operation that was read at `pc` stays inside the code. -/
structure Inside (code : Array UInt8) (pc : Nat) (o : Operation)
    (stop : Nat) : Prop where
  start_lt : pc < stop
  stop_le : stop ≤ code.size
  leads_lt : ∀ t, o.Leads t → t < code.size

theorem tableSwitchAt_gives :
    Gives (tableSwitchAt code pc) (fun x => Inside code pc x.1 x.2)
      Fault.Malformed := by
  have hstart := lt_switchStart pc
  rw [tableSwitchAt, clearBits_eq]
  refine wordAt_gives.bind fun fallbackOffset _ => ?_
  refine wordAt_gives.bind fun low _ => ?_
  refine wordAt_gives.bind fun high hend => ?_
  split
  · exact Fault.malformed_of trivial
  simp only
  split
  · exact Fault.malformed_of trivial
  refine target_gives.bind fun fallback hfallback => ?_
  refine (targetsAt_gives hend).bind fun targets htargets => ?_
  obtain ⟨hlt, hstop⟩ := htargets
  refine ⟨by simp only; omega, hstop, ?_⟩
  intro t hend
  rcases hend with rfl | ht
  · exact hfallback
  · exact hlt t ht

theorem lookupSwitchAt_gives :
    Gives (lookupSwitchAt code pc) (fun x => Inside code pc x.1 x.2)
      Fault.Malformed := by
  have hstart := lt_switchStart pc
  rw [lookupSwitchAt, clearBits_eq]
  refine wordAt_gives.bind fun fallbackOffset _ => ?_
  refine wordAt_gives.bind fun n hend => ?_
  split
  · exact Fault.malformed_of trivial
  refine target_gives.bind fun fallback hfallback => ?_
  refine (pairsAt_gives hend).bind fun pairs hpairs => ?_
  obtain ⟨hlt, hstop⟩ := hpairs
  refine ⟨by simp only; omega, hstop, ?_⟩
  intro t hend
  rcases hend with rfl | ⟨pair, hpair, rfl⟩
  · exact hfallback
  · exact hlt pair hpair

/-- Every operand shape stays inside the code. -/
theorem operationAt_gives (hpc : pc < code.size) (opcode : Opcode) :
    Gives (operationAt code pc opcode) (fun x => Inside code pc x.1 x.2)
      Fault.Malformed := by
  have hplain : ∀ {o : Operation} {stop : Nat}, pc < stop →
      stop ≤ code.size → (∀ t, ¬ o.Leads t) → Inside code pc o stop :=
    fun hstart hstop hleads =>
      ⟨hstart, hstop, fun t ht => absurd ht (hleads t)⟩
  cases opcode with
  | plain op => exact hplain (Nat.lt_succ_self pc) hpc fun _ => id
  | immediate op =>
    cases op with
    | byte =>
      refine byteAt_gives.bind fun n hend => ?_
      exact hplain (Nat.lt_add_of_pos_right (by decide)) hend fun _ => id
    | short =>
      refine shortAt_gives.bind fun n hend => ?_
      exact hplain (Nat.lt_add_of_pos_right (by decide)) hend fun _ => id
  | byteOperand op =>
    refine byteAt_gives.bind fun b hend => ?_
    exact hplain (Nat.lt_add_of_pos_right (by decide)) hend fun _ => id
  | index op =>
    refine shortAt_gives.bind fun i hend => ?_
    exact hplain (Nat.lt_add_of_pos_right (by decide)) hend fun _ => id
  | branch op =>
    refine shortAt_gives.bind fun offset hend => ?_
    refine target_gives.bind fun destination hdestination => ?_
    refine ⟨Nat.lt_add_of_pos_right (by decide), hend, ?_⟩
    intro t hend
    obtain rfl := hend
    exact hdestination
  | increment =>
    refine byteAt_gives.bind fun slot _ => ?_
    refine byteAt_gives.bind fun delta hend => ?_
    exact hplain (Nat.lt_add_of_pos_right (by decide)) hend fun _ => id
  | tableSwitch => exact tableSwitchAt_gives
  | lookupSwitch => exact lookupSwitchAt_gives

theorem decode_gives :
    Gives (decode code pc)
      (fun i => i.pc = pc ∧ i.next ≤ code.size ∧
        ∀ t, i.operation.Leads t → t < code.size)
      (fun e => e.Malformed ∨ ∃ byte, e = .invalidOpcode byte pc) := by
  -- any table of opcodes would do; a name for it keeps it from being unfolded
  obtain ⟨opcodeOf, hopcodeOf⟩ : ∃ g, g = Opcode.ofByte? := ⟨_, rfl⟩
  unfold decode
  rw [← hopcodeOf]
  cases hbyte : code[pc]? with
  | none => exact .inl (Fault.malformed_of trivial)
  | some byte =>
    have hpc := (Array.getElem?_eq_some_iff.1 hbyte).1
    simp only
    cases opcodeOf byte with
    | none => exact .inr ⟨byte, rfl⟩
    | some opcode =>
      have hoperation := operationAt_gives hpc opcode
      simp only
      cases hread : operationAt code pc opcode with
      | error e => exact .inl (hoperation.of_error hread)
      | ok x =>
        have hin := hoperation.of_ok hread
        have hstart := hin.start_lt
        have hstop := hin.stop_le
        refine ⟨rfl, ?_, hin.leads_lt⟩
        simp only [next, len]
        omega

/-- A decoded instruction stays inside the code. -/
theorem decode_ok {i : Instruction} (h : decode code pc = .ok i) :
    i.pc = pc ∧ i.next ≤ code.size ∧
      ∀ t, i.operation.Leads t → t < code.size :=
  decode_gives.of_ok h

/-- Decoding fails for malformed code or for a byte that is no opcode. -/
theorem decode_error {e : Fault} (h : decode code pc = .error e) :
    e.Malformed ∨ ∃ byte, e = .invalidOpcode byte pc :=
  decode_gives.of_error h

end Instruction

end SlotVm
