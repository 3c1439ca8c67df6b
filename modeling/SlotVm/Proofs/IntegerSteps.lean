import SlotVm.Proofs.Arithmetic
import SlotVm.Proofs.Machine.Session
import SlotVm.Proofs.Operands

/-!
# Integer instructions are exact

`Machine.integers_exact` says what a step does that runs an integer
instruction.  The integer that is there afterwards is the one of the width
that represents the exact result (`IntOp.exact`), however large that is.  The
operands are gone, the run goes on behind the instruction, and nothing else
changes.

The operands may be any integers of 32 bits, and may come from a slot that
nobody has written, which reads as zero.  A division by zero is a fault.  All
other quotients of integers of the width are exact but one.

The arithmetic is in `SlotVm.Proofs.Arithmetic`, and `SlotVm.Proofs.Operands`
knows how operands are taken and put.
-/

namespace SlotVm

open SlotVm.Action

namespace Data

variable {δ : Type} {s : Store δ} {rest : List Value} {x y v : Value}
variable {a b n : Int32} {w : Width}

/-! ## The operations on the store -/

theorem intBinary_of_operands (hs : s.stack.Bounded)
    (hoperands : s.stack.operands = rest ++ [x, y]) (hx : x.Reads a)
    (hy : y.Reads b) (op : IntOp) :
    ∃ t, intBinary w op s = .ok () { s with stack := t } ∧ s.stack.Above t ∧
      t.operands = rest ++ [.int (w.wrap (op.apply w a b))] := by
  obtain ⟨t, hpop, habove, ht⟩ :=
    Store.popIntPair_of_operands hs hoperands hx hy op.mnemonic
  rw [← ht] at hoperands ⊢
  obtain ⟨u, hpush, hu⟩ :=
    Store.pushInt_of_taken hs habove hoperands (op.apply w a b)
  refine ⟨u, ?_, hu⟩
  rw [intBinary, seq_of_ok hpop]
  exact hpush

theorem intUnary_of_operands (hs : s.stack.Bounded)
    (hoperands : s.stack.operands = rest ++ [x]) (hx : x.Reads a)
    (op : String) (f : Int32 → Int32) :
    ∃ t, intUnary w op f s = .ok () { s with stack := t } ∧
      s.stack.Above t ∧ t.operands = rest ++ [.int (w.wrap (f a))] := by
  obtain ⟨t, hpop, habove, ht⟩ :=
    Store.popInt_of_operands hs hoperands hx op
  rw [← ht] at hoperands ⊢
  obtain ⟨u, hpush, hu⟩ :=
    Store.pushInt_of_taken hs habove hoperands (f a)
  refine ⟨u, ?_, hu⟩
  rw [intUnary, seq_of_ok hpop]
  exact hpush

theorem intQuotient_of_operands (hs : s.stack.Bounded)
    (hoperands : s.stack.operands = rest ++ [x, y]) (hx : x.Reads a)
    (hy : y.Reads b) (hb : b ≠ 0) (op : String)
    (f : Int32 → Int32 → Int32) :
    ∃ t, intQuotient w op f s = .ok () { s with stack := t } ∧
      s.stack.Above t ∧ t.operands = rest ++ [.int (w.wrap (f a b))] := by
  obtain ⟨t, hpop, habove, ht⟩ :=
    Store.popIntPair_of_operands hs hoperands hx hy op
  rw [← ht] at hoperands ⊢
  obtain ⟨u, hpush, hu⟩ :=
    Store.pushInt_of_taken hs habove hoperands (f a b)
  refine ⟨u, ?_, hu⟩
  rw [intQuotient, seq_of_ok hpop]
  simp only [if_neg hb]
  exact hpush

theorem intQuotient_zero (hs : s.stack.Bounded)
    (hoperands : s.stack.operands = rest ++ [x, y]) (hx : x.Reads a)
    (hy : y.Reads 0) (op : String) (f : Int32 → Int32 → Int32) :
    ∃ t, intQuotient w op f s =
      .error .divisionByZero { s with stack := t } := by
  obtain ⟨t, hpop, -⟩ :=
    Store.popIntPair_of_operands hs hoperands hx hy op
  refine ⟨t, ?_⟩
  rw [intQuotient, seq_of_ok hpop]
  rfl

end Data

namespace Machine

variable {δ : Type} {config : Config} {image : Image} {p : Program}
variable {m m' n : Machine δ} {i : Instruction} {f : Frame}
variable {callers : List Frame} {rest : List Value} {x y v : Value}
variable {a b : Int32} {z : Int}

/-! ## Steps -/

/-- The step puts the integer that represents `z` on top of the operands
`rest`, and goes on behind the instruction. -/
def Yields (w : Width) (i : Instruction) (f : Frame) (callers : List Frame)
    (rest : List Value) (z : Int) (m : Machine δ) : Prop :=
  ∃ r m', w.Represents z r ∧ step m = .ok .running m' ∧
    Replaced (rest ++ [.int r]) ({ f with pc := i.next } :: callers) m m'

section Step

variable (hm : m.Founded p) (ha : m.Active p) (hfetch : m.fetch = .ok i)
variable (hframes : m.frames = f :: callers)
include hm ha hfetch hframes

/-- An instruction that works on the store and puts an integer in the place of
operands. -/
theorem yields_of_data {op : PlainOp} {r : Int32}
    (hop : i.operation = .plain op)
    (hplain : ∀ n : Machine δ, executePlain p.config.word op n =
      proceed (onStore (executeData p.config.word op)) n)
    (hz : r.toInt ≡ z [ZMOD 2 ^ p.config.word.valueBits])
    (hdata : ∀ s : Store δ, s.stack.Bounded →
      s.stack.operands = m.store.stack.operands →
      ∃ t, executeData p.config.word op s = .ok () { s with stack := t } ∧
        s.stack.Above t ∧
        t.operands = rest ++ [.int (p.config.word.wrap r)]) :
    Yields p.config.word i f callers rest z m := by
  obtain ⟨n, hpoised, hstep⟩ := step_of_fetch hfetch hframes hm ha
  have hstack := hpoised.same.stack_eq
  obtain ⟨t, hresult, habove, ht⟩ :=
    hdata n.store hpoised.turn.founded.sound.bounded (by rw [hstack])
  refine ⟨p.config.word.wrap r,
    { n with store := { n.store with stack := t } },
    Width.represents_wrap hz, ?_, ?_⟩
  · rw [hstep, hop, execute, seq_of_ok hpoised.turn.getProgram]
    simp only
    rw [hplain]
    exact proceed_of_ok (onStore_of_ok hresult)
  · rw [← ht, ← hpoised.turn.frames_eq]
    exact hpoised.replaced habove

/-- A binary operation. -/
theorem intBinary_yields {op : IntOp}
    (hop : i.operation = .plain (.intBinary op))
    (hoperands : m.store.stack.operands = rest ++ [x, y]) (hx : x.Reads a)
    (hy : y.Reads b) :
    Yields p.config.word i f callers rest
      (op.exact p.config.word a.toInt b.toInt) m := by
  apply yields_of_data hm ha hfetch hframes hop (fun _ => rfl)
    (op.apply_modEq _ a b)
  intro s hs hsame
  exact Data.intBinary_of_operands hs (hsame.trans hoperands) hx hy op

theorem intNeg_yields (hop : i.operation = .plain .intNeg)
    (hoperands : m.store.stack.operands = rest ++ [x]) (hx : x.Reads a) :
    Yields p.config.word i f callers rest (-a.toInt) m := by
  apply yields_of_data hm ha hfetch hframes hop (fun _ => rfl)
    (neg_modEq _ a)
  intro s hs hsame
  exact Data.intUnary_of_operands hs (hsame.trans hoperands) hx _ _

/-- A quotient or a remainder. -/
theorem intQuotient_yields {op : PlainOp} {g : Int32 → Int32 → Int32}
    (hop : i.operation = .plain op)
    (hplain : ∀ n : Machine δ, executePlain p.config.word op n =
      proceed (onStore (executeData p.config.word op)) n)
    (hdata : executeData (δ := δ) p.config.word op =
      Data.intQuotient p.config.word op.mnemonic g)
    (hz : (g a b).toInt ≡ z [ZMOD 2 ^ p.config.word.valueBits])
    (hoperands : m.store.stack.operands = rest ++ [x, y]) (hx : x.Reads a)
    (hy : y.Reads b) :
    (b = 0 → ∃ m', step m = .error .divisionByZero m') ∧
      (b ≠ 0 → Yields p.config.word i f callers rest z m) := by
  constructor
  · intro hzero
    obtain ⟨n, hpoised, hstep⟩ := step_of_fetch hfetch hframes hm ha
    have hstack := hpoised.same.stack_eq
    obtain ⟨t, hresult⟩ := Data.intQuotient_zero (w := p.config.word)
      hpoised.turn.founded.sound.bounded (hstack ▸ hoperands) hx (hzero ▸ hy)
      op.mnemonic g
    refine ⟨{ n with store := { n.store with stack := t } }, ?_⟩
    rw [hstep, hop, execute, seq_of_ok hpoised.turn.getProgram]
    simp only
    rw [hplain, hdata]
    exact proceed_of_error (onStore_of_error hresult)
  · intro hb
    apply yields_of_data hm ha hfetch hframes hop hplain hz
    intro s hs hsame
    rw [hdata]
    exact Data.intQuotient_of_operands hs (hsame.trans hoperands) hx hy hb _ _

/-- An increment of a local variable. -/
theorem increment_exact {slot : UInt8} {delta : Int8}
    (hop : i.operation = .increment slot delta)
    (hv : f.locals[slot.toNat]? = some v) (hreads : v.Reads a) :
    ∃ r m', p.config.word.Represents (a.toInt + delta.toInt) r ∧
      step m = .ok .running m' ∧
      Replaced m.store.stack.operands
        ({ f with
          pc := i.next
          locals := f.locals.setIfInBounds slot.toNat (.int r) } :: callers)
        m m' := by
  obtain ⟨n, hpoised, hstep⟩ := step_of_fetch hfetch hframes hm ha
  have hz : (a + delta.toInt32).toInt ≡ a.toInt + delta.toInt
      [ZMOD 2 ^ p.config.word.valueBits] := by
    rw [Int32.toInt_add, Int8.toInt_toInt32]
    exact p.config.word.modEq_of_bmod _
  have hlt : slot.toNat < f.locals.size := (Array.getElem?_eq_some_iff.1 hv).1
  have hupdate : incrementLocal p.config.word slot.toNat delta.toInt32 n =
      .ok () { n with frames :=
        { f with
          pc := i.next
          locals := f.locals.setIfInBounds slot.toNat
            (.int (p.config.word.wrap (a + delta.toInt32))) } :: callers } := by
    unfold incrementLocal updateFrame
    simp only [hpoised.turn.frames_eq, Frame.getLocal, Frame.setLocal, hv,
      hreads.asInt, bind, Except.bind, if_pos hlt]
  have hresult := proceed_of_ok hupdate
  rw [hop, execute, seq_of_ok hpoised.turn.getProgram] at hstep
  simp only [hresult] at hstep
  refine ⟨_, _, Width.represents_wrap hz, hstep, ?_⟩
  rw [← hpoised.same.stack_eq]
  exact hpoised.replaced hpoised.turn.founded.sound.bounded.above_self

end Step

/-- Integer instructions are exact.  Whatever the operands are, the integer
that a step leaves is the one of the width that is congruent to the exact
result, modulo the number of integers.  A quotient is rounded towards zero and
fails exactly for the divisor zero, and of the quotients of integers of the
width only one is not exact.  An increment does the same to a local
variable. -/
theorem integers_exact (hm : InRun config image m) (hfetch : m.fetch = .ok i)
    (hframes : m.frames = f :: callers) :
    (∀ (op : IntOp) (rest : List Value) (x y : Value) (a b : Int32),
      i.operation = .plain (.intBinary op) →
      m.store.stack.operands = rest ++ [x, y] → x.Reads a → y.Reads b →
      Yields config.word i f callers rest
        (op.exact config.word a.toInt b.toInt) m) ∧
    (∀ (rest : List Value) (x : Value) (a : Int32),
      i.operation = .plain .intNeg →
      m.store.stack.operands = rest ++ [x] → x.Reads a →
      Yields config.word i f callers rest (-a.toInt) m) ∧
    (∀ (rest : List Value) (x y : Value) (a b : Int32),
      i.operation = .plain .intDiv →
      m.store.stack.operands = rest ++ [x, y] → x.Reads a → y.Reads b →
      (b = 0 → ∃ m', step m = .error .divisionByZero m') ∧
      (b ≠ 0 → Yields config.word i f callers rest (a.toInt.tdiv b.toInt) m) ∧
      (b ≠ 0 → config.word.InRange a → ∀ r,
        config.word.Represents (a.toInt.tdiv b.toInt) r →
        (r.toInt = a.toInt.tdiv b.toInt ↔
          ¬ (a = config.word.minInt ∧ b = -1)))) ∧
    (∀ (rest : List Value) (x y : Value) (a b : Int32),
      i.operation = .plain .intRem →
      m.store.stack.operands = rest ++ [x, y] → x.Reads a → y.Reads b →
      (b = 0 → ∃ m', step m = .error .divisionByZero m') ∧
      (b ≠ 0 →
        Yields config.word i f callers rest (a.toInt.tmod b.toInt) m)) ∧
    ∀ (slot : UInt8) (delta : Int8) (v : Value) (a : Int32),
      i.operation = .increment slot delta →
      f.locals[slot.toNat]? = some v → v.Reads a →
      ∃ r m', config.word.Represents (a.toInt + delta.toInt) r ∧
        step m = .ok .running m' ∧
        Replaced m.store.stack.operands
          ({ f with
            pc := i.next
            locals := f.locals.setIfInBounds slot.toNat (.int r) } :: callers)
          m m' := by
  obtain ⟨hfounded, hactive⟩ := hm.invariant
  -- The program is given so that unification need not unfold the widths.
  refine ⟨?_, ?_, ?_, ?_, ?_⟩
  · intro op rest x y a b hop hoperands hx hy
    exact intBinary_yields (p := .load config image) hfounded hactive hfetch
      hframes hop hoperands hx hy
  · intro rest x a hop hoperands hx
    exact intNeg_yields (p := .load config image) hfounded hactive hfetch
      hframes hop hoperands hx
  · intro rest x y a b hop hoperands hx hy
    obtain ⟨hzero, hquotient⟩ := intQuotient_yields hfounded hactive hfetch
      hframes hop (fun _ => rfl) rfl (div_modEq config.word a b) hoperands hx hy
    refine ⟨hzero, hquotient, ?_⟩
    intro hb hrange r hr
    rw [← Width.tdiv_mem_iff hrange hb]
    constructor
    · intro heq
      rw [← heq]
      exact hr.inRange
    · intro hmem
      exact hr.eq_of_mem hmem.1 hmem.2
  · intro rest x y a b hop hoperands hx hy
    exact intQuotient_yields (p := .load config image) hfounded hactive hfetch
      hframes hop (fun _ => rfl) rfl (rem_modEq config.word a b) hoperands hx hy
  · intro slot delta v a hop hv hreads
    exact increment_exact (p := .load config image) hfounded hactive hfetch
      hframes hop hv hreads

/-- The entry point adds one to the greatest integer of a narrow word. -/
def oneTooMany : Image where
  classes := [⟨0, none, 0⟩]
  methods := #[⟨0, 0, 0, 0, 2, .bytecode 0 6⟩]
  constants := #[]
  code := #[0x11, 0x3f, 0xff, 0x04, 0x60, 0xac]
  staticFields := 0
  main := ⟨0, 0⟩

/-- The sum is the least integer. -/
theorem integers_exact_oneTooMany :
    ∃ (m m' : Machine Unit) (x y : Value), InRun .asuro oneTooMany m ∧
      m.store.stack.operands = [x, y] ∧ x.Reads 16383 ∧ y.Reads 1 ∧
      step m = .ok .running m' ∧
      m'.store.stack.operands = [.int (-16384)] := by
  have htest : (fresh? .asuro oneTooMany).any (fun m0 =>
      (paused? 2 oneTooMany.main m0).any fun m =>
        m.fetch.toOption.any fun i => m.frames.length == 1 &&
          decide (i.operation = .plain (.intBinary .add)) &&
          m.store.stack.operands.map (fun v => (v.asInt "").toOption) ==
            [some 16383, some 1]) = true := by
    decide +kernel
  simp only [Option.any_eq_true, Bool.and_eq_true, beq_iff_eq,
    decide_eq_true_eq] at htest
  obtain ⟨m0, hfresh, m, hpaused, i, hi, ⟨hlength, hop⟩, hvalues⟩ := htest
  have hm : InRun .asuro oneTooMany m :=
    ⟨m0, 2, _, rests_of_fresh hfresh, run_of_paused hpaused⟩
  obtain ⟨f, hframes⟩ := List.length_eq_one_iff.1 hlength
  obtain ⟨x, others, hoperands, hx, hothers⟩ := List.map_eq_cons_iff.1 hvalues
  obtain ⟨y, rfl, hy⟩ := List.map_eq_singleton_iff.1 hothers
  have hx' : x.Reads 16383 := Value.asInt_ok (eq_ok_of_toOption hx)
  have hy' : y.Reads 1 := Value.asInt_ok (eq_ok_of_toOption hy)
  obtain ⟨hbinary, -⟩ := integers_exact hm (eq_ok_of_toOption hi) hframes
  obtain ⟨r, m', hr, hstep, hreplaced⟩ :=
    hbinary .add [] x y 16383 1 hop hoperands hx' hy'
  have hleast : -16384 = r :=
    (hr (-16384)).2 ⟨⟨by decide, by decide⟩, by decide⟩
  refine ⟨m, m', x, y, hm, hoperands, hx', hy', hstep, ?_⟩
  rw [hreplaced.operands_eq, hleast]
  rfl

end Machine

end SlotVm
