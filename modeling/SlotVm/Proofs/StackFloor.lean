import SlotVm.Proofs.Stack

/-!
# The stack above its floor

A floor splits the operand stack in two.  The values below it are frozen, and
the values above it are a stack of their own (`Stack.upper`), with the room
that the frozen values leave.  A call on the whole stack answers and does what
it answers and does on that stack.  Only an overflow is worded differently: it
names the limit of the whole.

`Stack.onto` puts a stack on top of frozen values.  There are three groups of
lemmas.

* Each operation works on top of frozen values as it works without them
  (`Lifts`, one statement for each operation, and one rule for each way to
  build an operation from others).
* The same of one call (`Call.perform_onto`), and of a row of calls by
  induction (`row_onto`).
* What a call does to the stack as a whole: it stays inside its limit, and a
  call that fails has changed nothing, a popped operand of the wrong kind
  apart.
-/

namespace SlotVm

open SlotVm.Action

/-- The fault with another limit, if it names one. -/
def Fault.underLimit (limit : Nat) : Fault → Fault
  | stackOverflow _ => stackOverflow limit
  | e => e

namespace Stack

variable {α β : Type} {lower : Array Value} {limit : Nat} {s t : Stack}

/-! ## Calls -/

/-- A call of the operand stack. -/
inductive Call where
  | push (v : Value)
  | pop
  | popInt (op : String)
  | popFloat (op : String)
  | peek (depth : Nat)
  | popN (count : Nat)

/-- What a call gives back. -/
inductive Reply where
  | done
  | value (v : Value)
  | int (n : Int32)
  | float (x : Float32)
  | values (vs : Array Value)

namespace Call

/-- The operation that is called. -/
def action : Call → Action Stack Reply
  | push v => do
      Stack.push v
      return .done
  | pop => do
      let v ← Stack.pop
      return .value v
  | popInt op => do
      let n ← Stack.popInt op
      return .int n
  | popFloat op => do
      let x ← Stack.popFloat op
      return .float x
  | peek depth => do
      let v ← Action.read fun s => s.peek depth
      return .value v
  | popN count => do
      let vs ← Stack.popN count
      return .values vs

/-- The result of a call, or its fault. -/
def reply (c : Call) (s : Stack) : Except Fault Reply :=
  match c.action s with
  | .ok r _ => .ok r
  | .error e _ => .error e

/-- The stack behind a call, whether it fails or not. -/
def next (c : Call) (s : Stack) : Stack :=
  match c.action s with
  | .ok _ t => t
  | .error _ t => t

/-- The call takes a number, and refuses a value of another kind after it
has popped it. -/
def takesNumber : Call → Bool
  | popInt _ | popFloat _ => true
  | _ => false

end Call

/-- The results of a row of calls.  A fault does not stop the row. -/
def replies : List Call → Stack → List (Except Fault Reply)
  | [], _ => []
  | c :: rest, s => c.reply s :: replies rest (c.next s)

/-- The stack behind a row of calls. -/
def after : List Call → Stack → Stack
  | [], s => s
  | c :: rest, s => after rest (c.next s)

/-! ## Frozen values -/

/-- The values above the floor as a stack of their own. -/
def upper (s : Stack) : Stack :=
  ⟨s.values.drop s.floor, s.limit - s.floor, 0⟩

/-- A stack on top of frozen values. -/
def onto (lower : Array Value) (limit : Nat) (t : Stack) : Stack :=
  ⟨lower ++ t.values, limit, lower.size⟩

/-- A stack without a floor, with the room that the frozen values leave. -/
structure Fresh (lower : Array Value) (limit : Nat) (t : Stack) : Prop where
  floor_eq : t.floor = 0
  limit_eq : t.limit = limit - lower.size

theorem Fresh.available_onto (h : Fresh lower limit t) :
    (t.onto lower limit).available = t.available := by
  simp only [available, onto, h.floor_eq, Array.size_append]
  omega

theorem size_take_floor (h : s.floor ≤ s.size) :
    (s.values.take s.floor).size = s.floor := by
  rw [Array.take_eq_extract, Array.size_extract, Nat.sub_zero]
  exact Nat.min_eq_left h

/-- A stack is what stands above its floor, on top of the values below. -/
theorem onto_upper (h : s.floor ≤ s.size) :
    s.upper.onto (s.values.take s.floor) s.limit = s := by
  have hsize : s.floor ≤ s.values.size := h
  have hvalues : s.values.take s.floor ++ s.values.drop s.floor = s.values := by
    rw [Array.take_eq_extract, Array.drop_eq_extract,
      Array.extract_append_extract, Nat.min_eq_left (Nat.zero_le _),
      Nat.max_eq_right hsize, Array.extract_size]
  unfold onto upper
  rw [size_take_floor h, hvalues]

theorem fresh_upper (h : s.floor ≤ s.size) :
    Fresh (s.values.take s.floor) s.limit s.upper := by
  refine ⟨rfl, ?_⟩
  rw [size_take_floor h]
  rfl

/-- What stands above the floor of a stack that is put on top of frozen
values. -/
theorem Fresh.upper_onto (h : Fresh lower limit t) :
    (t.onto lower limit).upper = t := by
  have hvalues : (lower ++ t.values).drop lower.size = t.values := by
    apply Array.ext'
    simp
  unfold upper onto
  simp only [hvalues, ← h.limit_eq, ← h.floor_eq]

theorem below_onto (lower : Array Value) (limit : Nat) (t : Stack) :
    (t.onto lower limit).below = lower.toList := by
  simp [below, onto]

/-- The last values of a row are the last ones of its upper part. -/
theorem extract_append_last {upper : Array Value} {count : Nat}
    (h : count ≤ upper.size) :
    (lower ++ upper).extract ((lower ++ upper).size - count)
        (lower ++ upper).size =
      upper.extract (upper.size - count) upper.size := by
  rw [Array.size_append, Array.extract_append,
    Array.extract_eq_empty_of_le (by omega), Array.empty_append]
  congr 1 <;> omega

theorem take_append_last {upper : Array Value} {count : Nat}
    (h : count ≤ upper.size) :
    (lower ++ upper).take ((lower ++ upper).size - count) =
      lower ++ upper.take (upper.size - count) := by
  rw [Array.size_append, Array.take_eq_extract, Array.take_eq_extract,
    Array.extract_append, Nat.zero_sub]
  congr 1
  · exact Array.extract_eq_self_of_le (by omega)
  · congr 1
    omega

/-! ## Operations on top of frozen values -/

/-- From this stack, the operation works on top of frozen values as it works
without them, and an overflow names the limit of the whole. -/
def LiftsAt (lower : Array Value) (limit : Nat) (a : Action Stack α)
    (t : Stack) : Prop :=
  Ends a t
    (fun x u => a (t.onto lower limit) = .ok x (u.onto lower limit) ∧
      Fresh lower limit u)
    (fun e u => a (t.onto lower limit) =
      .error (e.underLimit limit) (u.onto lower limit) ∧ Fresh lower limit u)

/-- The operation works on top of frozen values as it works without them. -/
def Lifts (lower : Array Value) (limit : Nat) (a : Action Stack α) : Prop :=
  ∀ t, Fresh lower limit t → LiftsAt lower limit a t

/-- Two ends with the same result. -/
theorem LiftsAt.intro_ok {a : Action Stack α} {x : α} {u : Stack}
    (ha : a t = .ok x u)
    (honto : a (t.onto lower limit) = .ok x (u.onto lower limit))
    (hu : Fresh lower limit u) : LiftsAt lower limit a t := by
  unfold LiftsAt Ends
  rw [ha]
  exact ⟨honto, hu⟩

/-- Two ends with the same fault. -/
theorem LiftsAt.intro_error {a : Action Stack α} {e : Fault} {u : Stack}
    (ha : a t = .error e u)
    (honto : a (t.onto lower limit) =
      .error (e.underLimit limit) (u.onto lower limit))
    (hu : Fresh lower limit u) : LiftsAt lower limit a t := by
  unfold LiftsAt Ends
  rw [ha]
  exact ⟨honto, hu⟩

namespace Lifts

variable {a : Action Stack α} {f : α → Action Stack β}

protected theorem pure (x : α) :
    Lifts lower limit (Pure.pure x : Action Stack α) :=
  fun _ ht => .intro_ok rfl rfl ht

/-- The rule for one operation after another. -/
protected theorem bind (ha : Lifts lower limit a)
    (hf : ∀ x, Lifts lower limit (f x)) : Lifts lower limit (a >>= f) := by
  intro t ht
  unfold LiftsAt
  refine Ends.bind (Ends.imp_fail (ha t ht) ?_) ?_
  · intro e u hend
    obtain ⟨honto, hu⟩ := hend
    refine ⟨?_, hu⟩
    simp only [Bind.bind, EStateM.bind, honto]
  · intro x u hend
    obtain ⟨honto, hu⟩ := hend
    rw [seq_of_ok honto]
    exact hf x u hu

/-- The rule for a result that the stack has no part in. -/
protected theorem lift {r : Except Fault α}
    (h : ∀ e, r = .error e → e.underLimit limit = e) :
    Lifts lower limit (Action.lift r : Action Stack α) := by
  intro t ht
  cases r with
  | ok x => exact .intro_ok rfl rfl ht
  | error e =>
    refine .intro_error rfl ?_ ht
    rw [h e rfl]
    rfl

end Lifts

theorem push_lifts (v : Value) : Lifts lower limit (push v) := by
  intro t ht
  have hroom : (t.onto lower limit).values.size < limit ↔
      t.values.size < t.limit := by
    rw [ht.limit_eq, onto, Array.size_append]
    omega
  by_cases h : t.values.size < t.limit
  · refine .intro_ok (if_pos h) ?_ ⟨ht.floor_eq, ht.limit_eq⟩
    refine (if_pos (hroom.2 h)).trans ?_
    simp only [onto, Array.append_push]
  · exact .intro_error (if_neg h) (if_neg (mt hroom.1 h)) ht

theorem pop_lifts : Lifts lower limit pop := by
  intro t ht
  have hsize : (t.onto lower limit).values.size =
      lower.size + t.values.size := Array.size_append
  have hreach : (t.onto lower limit).floor <
      (t.onto lower limit).values.size ↔ t.floor < t.values.size := by
    rw [hsize, ht.floor_eq]
    exact Nat.lt_add_right_iff_pos
  by_cases h : t.floor < t.values.size
  · have hpos : 0 < t.values.size := Nat.zero_lt_of_lt h
    refine .intro_ok (dif_pos h) ?_ ⟨ht.floor_eq, ht.limit_eq⟩
    refine (dif_pos (hreach.2 h)).trans ?_
    have hlast : (t.onto lower limit).values[
        (t.onto lower limit).values.size - 1] =
        t.values[t.values.size - 1] := by
      simp only [onto]
      rw [Array.getElem_append_right (by rw [Array.size_append]; omega)]
      congr 1
      rw [Array.size_append]
      omega
    have hrest : (t.onto lower limit).values.pop = lower ++ t.values.pop :=
      Array.pop_append_of_ne_empty (Array.ne_empty_of_size_pos hpos)
    rw [hlast, hrest]
    rfl
  · exact .intro_error (dif_neg h) (dif_neg (mt hreach.1 h)) ht

theorem popInt_lifts (op : String) : Lifts lower limit (popInt op) := by
  refine pop_lifts.bind fun v => Lifts.lift ?_
  intro e he
  cases v <;> cases he <;> rfl

theorem popFloat_lifts (op : String) : Lifts lower limit (popFloat op) := by
  refine pop_lifts.bind fun v => Lifts.lift ?_
  intro e he
  cases v <;> cases he <;> rfl

theorem peek_onto (ht : Fresh lower limit t) (depth : Nat) :
    (t.onto lower limit).peek depth = t.peek depth := by
  have hoperands : (t.onto lower limit).operands = t.operands := by
    simp [operands, onto, ht.floor_eq]
  rw [peek_eq, peek_eq, hoperands]

theorem peek_lifts (depth : Nat) :
    Lifts lower limit (Action.read fun s : Stack => s.peek depth) := by
  intro t ht
  have honto := peek_onto ht depth
  cases hpeek : t.peek depth with
  | ok v =>
    exact .intro_ok (lift_of_ok hpeek) (lift_of_ok (honto.trans hpeek)) ht
  | error e =>
    cases peek_error hpeek
    exact .intro_error (lift_of_error hpeek)
      (lift_of_error (honto.trans hpeek)) ht

theorem popN_lifts (count : Nat) : Lifts lower limit (popN count) := by
  intro t ht
  have havailable := ht.available_onto
  by_cases h : count ≤ t.available
  · have hcount : count ≤ t.values.size := Nat.le_trans h (Nat.sub_le _ _)
    refine .intro_ok (if_pos h) ?_ ⟨ht.floor_eq, ht.limit_eq⟩
    refine (if_pos (havailable ▸ h)).trans ?_
    simp only [onto, extract_append_last hcount, take_append_last hcount]
  · exact .intro_error (if_neg h) (if_neg (havailable ▸ h)) ht

/-! ## Calls on top of frozen values -/

theorem Call.action_lifts (c : Call) : Lifts lower limit c.action := by
  cases c with
  | push v => exact (push_lifts v).bind fun _ => Lifts.pure _
  | pop => exact pop_lifts.bind fun _ => Lifts.pure _
  | popInt op => exact (popInt_lifts op).bind fun _ => Lifts.pure _
  | popFloat op => exact (popFloat_lifts op).bind fun _ => Lifts.pure _
  | peek depth => exact (peek_lifts depth).bind fun _ => Lifts.pure _
  | popN count => exact (popN_lifts count).bind fun _ => Lifts.pure _

/-- One call on top of frozen values. -/
theorem Call.perform_onto (c : Call) (ht : Fresh lower limit t) :
    c.reply (t.onto lower limit) =
        (c.reply t).mapError (Fault.underLimit limit) ∧
      c.next (t.onto lower limit) = (c.next t).onto lower limit ∧
      Fresh lower limit (c.next t) := by
  have hlifts := c.action_lifts t ht
  unfold reply next
  cases ha : c.action t with
  | ok r u =>
    obtain ⟨honto, hu⟩ := Ends.of_ok hlifts ha
    rw [honto]
    exact ⟨rfl, rfl, hu⟩
  | error e u =>
    obtain ⟨honto, hu⟩ := Ends.of_error hlifts ha
    rw [honto]
    exact ⟨rfl, rfl, hu⟩

/-- A row of calls on top of frozen values.  The values stay where they are,
so each call finds the stack in the same form again. -/
theorem row_onto (calls : List Call) (ht : Fresh lower limit t) :
    replies calls (t.onto lower limit) =
        (replies calls t).map (·.mapError (Fault.underLimit limit)) ∧
      after calls (t.onto lower limit) = (after calls t).onto lower limit ∧
      Fresh lower limit (after calls t) := by
  induction calls generalizing t with
  | nil => exact ⟨rfl, rfl, ht⟩
  | cons c rest ih =>
    obtain ⟨hreply, hnext, hfresh⟩ := c.perform_onto ht
    obtain ⟨hreplies, hafter, hend⟩ := ih hfresh
    refine ⟨?_, ?_, hend⟩
    · rw [replies, hreply, hnext, hreplies]
      rfl
    · rw [after, hnext, hafter]
      rfl

/-! ## The stack as a whole -/

/-- A stack that was inside its limit is still. -/
def KeepsLimit (s t : Stack) : Prop := s.size ≤ s.limit → t.size ≤ t.limit

/-- The operation keeps the stack inside its limit, and changes nothing if it
fails. -/
def Tidy (a : Action Stack α) (s : Stack) : Prop :=
  Ends a s (fun _ t => KeepsLimit s t) (fun _ t => t = s)

theorem push_tidy (v : Value) (s : Stack) : Tidy (push v) s := by
  unfold Tidy Ends push
  by_cases h : s.values.size < s.limit
  · rw [if_pos h]
    intro _
    rw [size, Array.size_push]
    exact h
  · rw [if_neg h]

theorem pop_tidy (s : Stack) : Tidy pop s := by
  unfold Tidy Ends pop
  by_cases h : s.floor < s.values.size
  · rw [dif_pos h]
    intro hsize
    rw [size, Array.size_pop]
    exact Nat.le_trans (Nat.sub_le _ _) hsize
  · rw [dif_neg h]

theorem peek_tidy (depth : Nat) (s : Stack) :
    Tidy (Action.read fun s : Stack => s.peek depth) s :=
  Ends.read (fun _ _ => id) fun _ _ => rfl

theorem popN_tidy (count : Nat) (s : Stack) : Tidy (popN count) s := by
  unfold Tidy Ends popN
  by_cases h : count ≤ s.available
  · rw [if_pos h]
    intro hsize
    rw [size, Array.take_eq_extract, Array.size_extract]
    exact Nat.le_trans (Nat.sub_le _ _)
      (Nat.le_trans (Nat.min_le_right _ _) hsize)
  · rw [if_neg h]

/-- There is something to pop if a pop succeeds. -/
theorem available_of_pop {v : Value} (h : pop s = .ok v t) :
    s.available ≠ 0 := by
  intro hnone
  unfold pop at h
  rw [dif_neg (Nat.not_lt.2 (Nat.sub_eq_zero_iff_le.1 hnone))] at h
  cases h

namespace Call

variable {c : Call}

/-- What a call leaves that fails: the same stack, unless it is about a number
and something has been popped. -/
def Leaves (c : Call) (s t : Stack) : Prop :=
  t = s ∨ (c.takesNumber = true ∧ s.available ≠ 0) ∧ KeepsLimit s t

theorem action_ends (c : Call) (s : Stack) :
    Ends c.action s (fun _ t => KeepsLimit s t) (fun _ t => c.Leaves s t) := by
  have hwhole : ∀ {α : Type} {a : Action Stack α} (f : α → Reply), Tidy a s →
      Ends (do let x ← a; return f x) s (fun _ t => KeepsLimit s t)
        (fun _ t => c.Leaves s t) := by
    intro α a f ha
    have hleaves : Ends a s (fun _ t => KeepsLimit s t)
        (fun _ t => c.Leaves s t) := Ends.imp_fail ha fun _ _ => .inl
    exact hleaves.bind fun _ _ ht => Ends.pure ht
  have hnumber : ∀ {α : Type} (r : Value → Except Fault α) (f : α → Reply),
      c.takesNumber = true →
      Ends (do let x ← (do let v ← Stack.pop; Action.lift (r v)); return f x) s
        (fun _ t => KeepsLimit s t) (fun _ t => c.Leaves s t) := by
    intro α r f hc
    have hpop : Ends Stack.pop s
        (fun v t => Stack.pop s = .ok v t ∧ KeepsLimit s t)
        (fun _ t => c.Leaves s t) :=
      (Ends.with_end (pop_tidy s)).imp_fail fun _ _ hend => .inl hend.2
    refine Ends.bind (Ends.bind hpop ?_) fun _ _ ht => Ends.pure ht
    intro v t hend
    obtain ⟨hpop, ht⟩ := hend
    exact Ends.lift (fun _ _ => ht)
      fun _ _ => .inr ⟨⟨hc, available_of_pop hpop⟩, ht⟩
  cases c with
  | push v => exact hwhole _ (push_tidy v s)
  | pop => exact hwhole _ (pop_tidy s)
  | popInt op => exact hnumber (·.asInt op) .int rfl
  | popFloat op => exact hnumber (·.asFloat op) .float rfl
  | peek depth => exact hwhole _ (peek_tidy depth s)
  | popN count => exact hwhole _ (popN_tidy count s)

/-- No call makes a stack grow beyond its limit, whether it fails or not. -/
theorem next_size_le (c : Call) (h : s.size ≤ s.limit) :
    (c.next s).size ≤ (c.next s).limit := by
  unfold next
  cases ha : c.action s with
  | ok r t => exact (c.action_ends s).of_ok ha h
  | error e t =>
    rcases (c.action_ends s).of_error ha with rfl | ⟨-, ht⟩
    · exact h
    · exact ht h

/-- A call that fails changes nothing, unless it has popped an operand of the
wrong kind. -/
theorem next_of_failed {e : Fault} (h : c.reply s = .error e)
    (hnumber : c.takesNumber = true → s.available = 0) : c.next s = s := by
  unfold reply at h
  unfold next
  cases ha : c.action s with
  | ok r t =>
    rw [ha] at h
    cases h
  | error e t =>
    rcases (c.action_ends s).of_error ha with ht | ⟨⟨hc, hsome⟩, -⟩
    · exact ht
    · exact absurd (hnumber hc) hsome

end Call

/-- A row of calls keeps a stack inside its limit. -/
theorem after_size_le (calls : List Call) (h : s.size ≤ s.limit) :
    (after calls s).size ≤ (after calls s).limit := by
  induction calls generalizing s with
  | nil => exact h
  | cons c rest ih => exact ih (c.next_size_le h)

/-- A floor splits a stack in two.  However many calls are made, and whether
they fail or not, the values below the floor, the floor and the limit are what
they were, and the stack does not get shorter than its floor, or longer than
its limit if it was not before.  The values above the floor are what the same
calls make of them on a fresh stack that has the rest of the room.  The calls
give the same results and the same faults there, but for the limit that an
overflow names.  A call that fails leaves everything as it is, except for a
number that is popped and turns out to be none. -/
theorem floor_splits (h : s.floor ≤ s.size) (calls : List Call) :
    (after calls s).below = s.below ∧
    (after calls s).floor = s.floor ∧
    (after calls s).limit = s.limit ∧
    s.floor ≤ (after calls s).size ∧
    (s.size ≤ s.limit → (after calls s).size ≤ s.limit) ∧
    (after calls s).upper = after calls s.upper ∧
    replies calls s =
      (replies calls s.upper).map (·.mapError (Fault.underLimit s.limit)) ∧
    ∀ (c : Call) (e : Fault), c.reply (after calls s) = .error e →
      (c.takesNumber = true → (after calls s).available = 0) →
      c.next (after calls s) = after calls s := by
  obtain ⟨hreplies, hafter, hfresh⟩ := row_onto calls (fresh_upper h)
  have hbelow := below_onto (s.values.take s.floor) s.limit
  have hstart := hbelow s.upper
  rw [onto_upper h] at hreplies hafter hstart
  have hfloor : (after calls s).floor = s.floor := by
    have hupper := congrArg floor (onto_upper h)
    rw [hafter]
    exact hupper
  have hlimit : (after calls s).limit = s.limit := by
    rw [hafter]
    rfl
  refine ⟨?_, hfloor, hlimit, ?_, ?_, ?_, hreplies, ?_⟩
  · rw [hafter, hbelow, hstart]
  · rw [← hfloor, hafter]
    unfold size onto
    rw [Array.size_append]
    exact Nat.le_add_right _ _
  · intro hsize
    rw [← hlimit]
    exact after_size_le calls hsize
  · rw [hafter, hfresh.upper_onto]
  · exact fun c e hfails hnumber => Call.next_of_failed hfails hnumber

/-- One frozen value below two operands, with room for one more. -/
def twoOperands : Stack := ⟨#[.int 1, .int 2, .null], 4, 1⟩

/-- Calls of every kind.  Some of them ask for more than there is above the
floor or below the limit, and one finds no number. -/
def everyCall : List Call :=
  [.peek 2, .peek 1, .push (.int 3), .push (.int 4), .pop, .push (.float 1.5),
    .popFloat "fadd", .popInt "iadd", .popN 2, .popN 1, .pop]

theorem floor_splits_twoOperands :
    twoOperands.floor ≤ twoOperands.size ∧
    replies everyCall twoOperands =
      [.error .stackUnderflow, .ok (.value (.int 2)), .ok .done,
        .error (.stackOverflow 4), .ok (.value (.int 3)), .ok .done,
        .ok (.float 1.5), .error (.typeMismatch "iadd" "int" "null"),
        .error .stackUnderflow, .ok (.values #[.int 2]),
        .error .stackUnderflow] ∧
    after everyCall twoOperands = ⟨#[.int 1], 4, 1⟩ := by
  have hfloor : twoOperands.floor ≤ twoOperands.size := by decide
  obtain ⟨-, -, -, -, -, -, hreplies, -⟩ := floor_splits hfloor everyCall
  exact ⟨hfloor, hreplies.trans rfl, rfl⟩

end Stack

end SlotVm
