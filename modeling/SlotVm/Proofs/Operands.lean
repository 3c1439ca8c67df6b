import SlotVm.Proofs.Machine.Step

/-!
# Operations on given operands

The effects of operations (`Machine.Effect`) leave open which values an
operation takes and puts.  This module computes with them: where the last
operands are known, it says which result an operation ends with and which
operands are there afterwards.

Each lemma gives the stack that is left and puts it into the state, so the
rest of the state is visibly the same.  A push that follows a pop cannot fail
(`Stack.Above.room`).  `Machine.Replaced` is what a step leaves that changes
the operands and the current call and nothing else.
-/

namespace SlotVm

/-- An operation that takes an integer finds `n` in the value. -/
def Value.Reads (v : Value) (n : Int32) : Prop := v = .int n ∨ v = .zero ∧ n = 0

theorem Value.Reads.asInt {v : Value} {n : Int32} (h : v.Reads n)
    (op : String) : v.asInt op = .ok n := by
  rcases h with rfl | ⟨rfl, rfl⟩
  · rfl
  · rfl

namespace Stack

variable {s t : Stack} {rest : List Value} {v : Value} {n : Int32}

/-- A stack that has lost operands has room for another one. -/
theorem Above.room (h : s.Above t) (hs : s.Bounded)
    (hless : t.operands.length < s.operands.length) : t.size < t.limit := by
  have hle := hs.size_le
  have hsize := s.size_eq
  have hsize' := t.size_eq
  rw [h.below_eq] at hsize'
  rw [h.limit_eq]
  omega

theorem pop_of_operands (hs : s.Bounded)
    (hoperands : s.operands = rest ++ [v]) :
    ∃ t, pop s = .ok v t ∧ s.Above t ∧ t.operands = rest := by
  cases hpop : pop s with
  | ok u t =>
    obtain ⟨habove, hlast⟩ := (pop_ends hs).of_ok hpop
    rw [hoperands] at hlast
    obtain ⟨hrest, hv⟩ := List.append_inj' hlast rfl
    cases hv
    exact ⟨t, rfl, habove, hrest.symm⟩
  | error e t =>
    obtain ⟨-, hnil, -⟩ := (pop_ends hs).of_error hpop
    rw [hoperands] at hnil
    exact absurd hnil (List.append_ne_nil_of_right_ne_nil _ (by simp))

theorem popInt_of_operands (hs : s.Bounded)
    (hoperands : s.operands = rest ++ [v]) (hv : v.Reads n) (op : String) :
    ∃ t, popInt op s = .ok n t ∧ s.Above t ∧ t.operands = rest := by
  obtain ⟨t, hpop, ht⟩ := pop_of_operands hs hoperands
  refine ⟨t, ?_, ht⟩
  rw [popInt, Action.seq_of_ok hpop]
  exact Action.lift_of_ok (hv.asInt op)

theorem push_of_room (hs : s.Bounded) (hroom : s.size < s.limit) (v : Value) :
    ∃ t, push v s = .ok () t ∧ s.Above t ∧ t.operands = s.operands ++ [v] := by
  have hends := push_ends hs v
  have hpush := push_room hroom v
  exact ⟨_, hpush, hends.of_ok hpush⟩

end Stack

namespace Store

open SlotVm.Action

variable {δ α : Type} {s : Store δ} {rest : List Value} {v x y : Value}
variable {a b n : Int32} {t : Stack} {w : Width}

theorem onStack_of_ok {action : Action Stack α} {r : α}
    (h : action s.stack = .ok r t) :
    onStack action s = .ok r { s with stack := t } := by
  simp only [onStack, Action.onPart, h]

theorem popInt_of_operands (hs : s.stack.Bounded)
    (hoperands : s.stack.operands = rest ++ [v]) (hv : v.Reads n)
    (op : String) :
    ∃ t, popInt op s = .ok n { s with stack := t } ∧ s.stack.Above t ∧
      t.operands = rest := by
  obtain ⟨t, hpop, ht⟩ := Stack.popInt_of_operands hs hoperands hv op
  exact ⟨t, onStack_of_ok hpop, ht⟩

/-- The first of two operands is below the second. -/
theorem popIntPair_of_operands (hs : s.stack.Bounded)
    (hoperands : s.stack.operands = rest ++ [x, y]) (hx : x.Reads a)
    (hy : y.Reads b) (op : String) :
    ∃ t, Data.popIntPair op s = .ok (a, b) { s with stack := t } ∧
      s.stack.Above t ∧ t.operands = rest := by
  have hsplit : s.stack.operands = (rest ++ [x]) ++ [y] := by
    rw [hoperands, List.append_assoc]
    rfl
  obtain ⟨t, hsecond, habove, ht⟩ := popInt_of_operands hs hsplit hy op
  obtain ⟨u, hfirst, habove', hu⟩ := popInt_of_operands
    (s := { s with stack := t }) habove.bounded ht hx op
  refine ⟨u, ?_, habove.trans habove', hu⟩
  rw [Data.popIntPair, seq_of_ok hsecond, seq_of_ok hfirst]
  rfl

/-- An integer replaces the operands that have been taken. -/
theorem pushInt_of_taken {taken : List Value} (hs : s.stack.Bounded)
    (habove : s.stack.Above t)
    (htaken : s.stack.operands = t.operands ++ v :: taken) (n : Int32) :
    ∃ u, Data.pushInt w n { s with stack := t } =
        .ok () { s with stack := u } ∧
      s.stack.Above u ∧ u.operands = t.operands ++ [.int (w.wrap n)] := by
  have hless : t.operands.length < s.stack.operands.length := by
    simp [htaken]
  obtain ⟨u, hpush, habove', hu⟩ := Stack.push_of_room habove.bounded
    (habove.room hs hless) (.int (w.wrap n))
  exact ⟨u, onStack_of_ok (s := { s with stack := t }) hpush,
    habove.trans habove', hu⟩

end Store

namespace Machine

variable {δ : Type} {p : Program} {m n : Machine δ} {i : Instruction}
variable {f : Frame} {callers frames : List Frame} {t : Stack}

/-- The machine has other operands and another current call, and nothing else
is different. -/
structure Replaced (operands : List Value) (frames : List Frame)
    (m m' : Machine δ) : Prop extends Keeps m m' where
  above : m.store.stack.Above m'.store.stack
  operands_eq : m'.store.stack.operands = operands
  frames_eq : m'.frames = frames
  heap_eq : m'.store.heap = m.store.heap
  console_eq : m'.store.console = m.store.console

/-- What is known of the machine that runs an operation. -/
theorem Poised.replaced (h : Poised p i f callers m n)
    (habove : n.store.stack.Above t) :
    Replaced t.operands frames m
      { n with store := { n.store with stack := t }, frames := frames } where
  program_eq := h.program_eq
  bridge_eq := h.bridge_eq
  statics_eq := h.statics_eq
  above := h.same.stack_eq ▸ habove
  operands_eq := rfl
  frames_eq := rfl
  heap_eq := h.same.heap_eq
  console_eq := h.same.console_eq

theorem onStore_of_ok {α : Type} {action : Action (Store δ) α} {r : α}
    {s : Store δ} (h : action n.store = .ok r s) :
    onStore action n = .ok r { n with store := s } := by
  simp only [onStore, h]

theorem onStore_of_error {α : Type} {action : Action (Store δ) α} {e : Fault}
    {s : Store δ} (h : action n.store = .error e s) :
    onStore action n = .error e { n with store := s } := by
  simp only [onStore, h]

theorem proceed_of_ok {action : Action (Machine δ) Unit} {m' : Machine δ}
    (h : action n = .ok () m') : proceed action n = .ok .running m' := by
  rw [proceed, Action.seq_of_ok h]
  rfl

theorem proceed_of_error {action : Action (Machine δ) Unit} {e : Fault}
    {m' : Machine δ} (h : action n = .error e m') :
    proceed action n = .error e m' := by
  simp only [proceed, Bind.bind, EStateM.bind, h]

end Machine

end SlotVm
