import SlotVm.Proofs.Action
import SlotVm.Stack

/-!
# The floor of the operand stack

The floor cuts the operand stack in two: `Stack.below` belongs to the
callers, `Stack.operands` to the current call.  `Stack.Bounded` says that the
floor is not above the top and the top not above the limit.

There are three groups of lemmas.

* The two parts make up the whole stack (`below_append_operands`).
* `Stack.Above` relates two stacks that differ above the floor only, and
  `Bounded.setOperands` is how such a stack is made.
* What the operations do to the operands.  Each one is a single statement
  with its result and its fault, and none of them mentions an index.
-/

namespace SlotVm.Stack

open SlotVm.Action

variable {s t u : Stack} {v : Value}

/-- Values of the callers, bottom first. -/
def below (s : Stack) : List Value := s.values.toList.take s.floor

/-- Values of the current call, bottom first. -/
def operands (s : Stack) : List Value := s.values.toList.drop s.floor

/-- The floor is inside the stack, and the stack inside its limit. -/
structure Bounded (s : Stack) : Prop where
  floor_le : s.floor ≤ s.size
  size_le : s.size ≤ s.limit

/-! ## The two parts -/

theorem below_append_operands (s : Stack) :
    s.below ++ s.operands = s.values.toList :=
  List.take_append_drop s.floor s.values.toList

theorem length_operands (s : Stack) : s.operands.length = s.available := by
  simp [operands, available]

theorem Bounded.length_below (hs : s.Bounded) : s.below.length = s.floor := by
  have h := hs.floor_le
  unfold size at h
  simp [below, h]

/-- The parts of a stack that is given by them. -/
theorem parts_of_values {lower upper : List Value}
    (hvalues : s.values.toList = lower ++ upper)
    (hfloor : lower.length = s.floor) :
    s.below = lower ∧ s.operands = upper := by
  unfold below operands
  rw [hvalues, ← hfloor]
  exact ⟨List.take_left, List.drop_left⟩

theorem size_eq (s : Stack) : s.size = s.below.length + s.operands.length := by
  rw [← List.length_append, below_append_operands]
  rfl

theorem mem_values_iff (s : Stack) :
    v ∈ s.values ↔ v ∈ s.below ∨ v ∈ s.operands := by
  rw [← List.mem_append, below_append_operands, Array.mem_toList_iff]

/-! ## Stacks that differ above the floor -/

/-- `t` is `s` with other operands. -/
structure Above (s t : Stack) : Prop where
  floor_eq : t.floor = s.floor
  limit_eq : t.limit = s.limit
  below_eq : t.below = s.below
  bounded : t.Bounded

theorem Bounded.above_self (hs : s.Bounded) : s.Above s :=
  ⟨rfl, rfl, rfl, hs⟩

theorem Above.trans (h : s.Above t) (h' : t.Above u) : s.Above u where
  floor_eq := h'.floor_eq.trans h.floor_eq
  limit_eq := h'.limit_eq.trans h.limit_eq
  below_eq := h'.below_eq.trans h.below_eq
  bounded := h'.bounded

/-- A stack whose values are the old ones below the floor and others above
it. -/
theorem Bounded.setOperands (hs : s.Bounded) {values : Array Value}
    {upper : List Value} (hvalues : values.toList = s.below ++ upper)
    (hsize : values.size ≤ s.limit) :
    s.Above { s with values } ∧
      ({ s with values } : Stack).operands = upper := by
  have hparts : ({ s with values } : Stack).below = s.below ∧
      ({ s with values } : Stack).operands = upper :=
    parts_of_values hvalues hs.length_below
  have hfloor : s.floor ≤ values.size := by
    have hlen := congrArg List.length hvalues
    rw [List.length_append, hs.length_below] at hlen
    rw [← Array.length_toList]
    omega
  exact ⟨⟨rfl, rfl, hparts.1, ⟨hfloor, hsize⟩⟩, hparts.2⟩

/-! ## The operations -/

/-- A push adds to the operands unless the stack is full. -/
theorem push_ends (hs : s.Bounded) (v : Value) :
    Ends (push v) s
      (fun _ t => s.Above t ∧ t.operands = s.operands ++ [v])
      (fun e t => t = s ∧ s.size = s.limit ∧ e = .stackOverflow s.limit) := by
  unfold Ends push
  by_cases h : s.values.size < s.limit
  · rw [if_pos h]
    refine hs.setOperands ?_ ?_
    · rw [Array.toList_push, ← below_append_operands, List.append_assoc]
    · rw [Array.size_push]
      omega
  · rw [if_neg h]
    have hsize := hs.size_le
    unfold size at hsize ⊢
    exact ⟨rfl, by omega, rfl⟩

/-- There is room for a push below the limit. -/
theorem push_room (h : s.size < s.limit) (v : Value) :
    push v s = .ok () { s with values := s.values.push v } :=
  if_pos h

/-- A pop takes the last operand, if there is one. -/
theorem pop_ends (hs : s.Bounded) :
    Ends pop s
      (fun v t => s.Above t ∧ s.operands = t.operands ++ [v])
      (fun e t => t = s ∧ s.operands = [] ∧ e = .stackUnderflow) := by
  unfold Ends pop
  by_cases h : s.floor < s.values.size
  · rw [dif_pos h]
    have hne : s.operands ≠ [] := by
      intro hnil
      have hlen := s.length_operands
      rw [hnil] at hlen
      simp only [available, List.length_nil] at hlen
      omega
    have hvalues : s.values.pop.toList = s.below ++ s.operands.dropLast := by
      rw [Array.toList_pop, ← below_append_operands,
        List.dropLast_append_of_ne_nil hne]
    have hlast : s.operands.getLast hne = s.values[s.values.size - 1] := by
      simp only [operands, List.getLast_eq_getElem, List.getElem_drop,
        Array.getElem_toList, List.length_drop, Array.length_toList]
      congr 1
      omega
    have hsize : s.values.pop.size ≤ s.limit := by
      have hle := hs.size_le
      unfold size at hle
      rw [Array.size_pop]
      omega
    obtain ⟨habove, hoperands⟩ := hs.setOperands hvalues hsize
    refine ⟨habove, ?_⟩
    rw [hoperands, ← hlast]
    exact (List.dropLast_concat_getLast hne).symm
  · rw [dif_neg h]
    refine ⟨rfl, ?_, rfl⟩
    rw [← List.length_eq_zero_iff, length_operands, available]
    omega

/-- `popN` takes the last operands together, if there are enough. -/
theorem popN_ends (hs : s.Bounded) (count : Nat) :
    Ends (popN count) s
      (fun args t => s.Above t ∧ args.size = count ∧
        s.operands = t.operands ++ args.toList)
      (fun e t => t = s ∧ s.operands.length < count ∧
        e = .stackUnderflow) := by
  have havail := s.length_operands
  unfold Ends popN
  by_cases h : count ≤ s.available
  · rw [if_pos h]
    have hfloor := hs.length_below
    have hsize := hs.size_le
    have htotal := s.size_eq
    unfold size at hsize htotal
    have hvalues : (s.values.take (s.values.size - count)).toList =
        s.below ++ s.operands.take (s.operands.length - count) := by
      rw [Array.take_eq_extract, Array.toList_extract,
        List.extract_eq_take_drop, List.drop_zero, ← below_append_operands,
        List.take_append, List.take_of_length_le (by omega)]
      congr 2
      omega
    have hargs : (s.values.extract (s.values.size - count)
        s.values.size).toList =
        s.operands.drop (s.operands.length - count) := by
      rw [Array.toList_extract, List.extract_eq_take_drop,
        ← below_append_operands, List.drop_append,
        List.drop_eq_nil_of_le (by omega), List.nil_append,
        List.take_of_length_le (by simp; omega)]
      congr 1
      omega
    obtain ⟨habove, hoperands⟩ := hs.setOperands hvalues (by simp; omega)
    refine ⟨habove, by simp; omega, ?_⟩
    rw [hoperands, hargs, List.take_append_drop]
  · rw [if_neg h]
    exact ⟨rfl, by omega, rfl⟩

/-- `peek` counts the operands from the last one. -/
theorem peek_eq (s : Stack) (depth : Nat) :
    s.peek depth =
      match s.operands.reverse[depth]? with
      | some v => .ok v
      | none => .error .stackUnderflow := by
  have havail := s.length_operands
  unfold peek
  by_cases h : depth < s.available
  · rw [dif_pos h]
    have hlen : depth < s.operands.length := by omega
    rw [List.getElem?_reverse hlen]
    have hindex : s.operands.length - 1 - depth < s.operands.length := by omega
    rw [List.getElem?_eq_getElem hindex]
    unfold available at h havail
    simp only [operands, List.getElem_drop, Array.getElem_toList,
      List.length_drop, Array.length_toList]
    congr 2
    omega
  · rw [dif_neg h, List.getElem?_eq_none (by simp; omega)]

/-- A value that `peek` finds is an operand. -/
theorem peek_ok {depth : Nat} (h : s.peek depth = .ok v) :
    v ∈ s.operands ∧ depth < s.operands.length := by
  rw [peek_eq] at h
  cases hv : s.operands.reverse[depth]? with
  | none => simp [hv] at h
  | some w =>
    simp only [hv, Except.ok.injEq] at h
    subst h
    have hlt := (List.getElem?_eq_some_iff.1 hv).1
    rw [List.length_reverse] at hlt
    exact ⟨List.mem_reverse.1 (List.mem_of_getElem? hv), hlt⟩

/-- The operand below the last one. -/
theorem peek_second (h : s.peek 1 = .ok v) :
    ∃ below last, s.operands = below ++ [v, last] := by
  rw [peek_eq] at h
  cases hreverse : s.operands.reverse with
  | nil => simp [hreverse] at h
  | cons last rest =>
    rw [hreverse] at h
    cases rest with
    | nil => cases h
    | cons second rest =>
      cases h
      refine ⟨rest.reverse, last, ?_⟩
      rw [← List.reverse_inj, hreverse]
      simp

/-- The only fault of `peek`. -/
theorem peek_error {depth : Nat} {e : Fault} (h : s.peek depth = .error e) :
    e = .stackUnderflow := by
  rw [peek_eq] at h
  split at h
  · cases h
  · cases h
    rfl

end SlotVm.Stack
