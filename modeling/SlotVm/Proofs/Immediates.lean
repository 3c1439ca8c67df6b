import SlotVm.Proofs.Assembler
import SlotVm.Proofs.IntegerSteps

/-!
# Pushing an integer

An integer can be pushed by one of the seven opcodes for small numbers, or
behind an opcode in one or two bytes.  `Immediate` is such an encoding, and
`Immediate.ofInt` the one that the assembler chooses for an integer.
`Machine.pushInt_wraps` says what has become of the integer when the
instruction has run, and how long the bytes need to be for it.

The assembler does not know how wide the words of the machine are.  It
chooses by the integer as it is written, but what is pushed is wrapped to the
width.  So the shortest bytes for an integer of 32 bits are the ones that the
assembler writes for the wrapped integer (`Immediate.length_ofInt_wrap_le`).
They are shorter than the ones for the integer itself if wrapping makes it
small.

* Numbers.  The encoding of the assembler has the lowest 16 bits of an
  integer (`Immediate.toInt_value_ofInt`), which is enough where the wrapped
  integer has 16 bits (`Immediate.wrap_value_ofInt`).  Nothing else can be
  pushed in this way (`Immediate.exists_wrap_iff`).
* Bytes.  They decode to one instruction (`Immediate.decodes`).
* Steps.  Every encoding puts its own number on the stack
  (`Machine.pushes_value`).
-/

namespace SlotVm

open Assembler Instruction

variable {w : Width} {n : Int32} {code : Array UInt8} {pc : Nat}

/-- An instruction that pushes a number of its own. -/
inductive Immediate where
  /-- The number `k - 1`. -/
  | const (k : Fin 7)
  | byte (b : UInt8)
  | short (s : UInt16)

namespace Immediate

/-- The number that the instruction has. -/
def value : Immediate → Int32
  | const k => Int32.ofNat k.val - 1
  | byte b => b.toInt8.toInt32
  | short s => s.toInt16.toInt32

/-- How the instruction is written. -/
def bytes : Immediate → List UInt8
  | const k => [(Opcode.plain (.pushInt k)).byte]
  | byte b => [(Opcode.immediate .byte).byte, b]
  | short s => (Opcode.immediate .short).byte :: bytesOfShort s

/-- The operation that it runs. -/
def operation : Immediate → Operation
  | const k => .plain (.pushInt k)
  | byte b => .immediate .byte b.toInt8.toInt32
  | short s => .immediate .short s.toInt16.toInt32

/-- The encoding that the assembler chooses. -/
def ofInt (n : Int32) : Immediate :=
  if -1 ≤ n ∧ n ≤ 5 then .const ⟨(n + 1).toInt.toNat % 7, rank_lt n⟩
  else if -128 ≤ n ∧ n ≤ 127 then .byte n.toInt8.toUInt8
  else .short n.toInt16.toUInt16

theorem bytes_ofInt (n : Int32) : (ofInt n).bytes = pushBytes n := by
  unfold ofInt pushBytes
  split
  · rfl
  · split <;> rfl

/-! ## Numbers -/

theorem toInt_value_const (k : Fin 7) :
    (const k).value.toInt = (k.val : Int) - 1 := by
  revert k
  decide

theorem value_byte_mem (b : UInt8) :
    -128 ≤ (byte b).value.toInt ∧ (byte b).value.toInt ≤ 127 := by
  have hlo := b.toInt8.le_toInt
  have hhi := b.toInt8.toInt_lt
  rw [value, Int8.toInt_toInt32]
  omega

theorem value_short_mem (s : UInt16) :
    -32768 ≤ (short s).value.toInt ∧ (short s).value.toInt ≤ 32767 := by
  have hlo := s.toInt16.le_toInt
  have hhi := s.toInt16.toInt_lt
  rw [value, Int16.toInt_toInt32]
  omega

/-- Every encoding has a number of 16 bits. -/
theorem value_mem (e : Immediate) :
    -32768 ≤ e.value.toInt ∧ e.value.toInt ≤ 32767 := by
  cases e with
  | const k =>
    have hvalue := toInt_value_const k
    omega
  | byte b =>
    have hvalue := value_byte_mem b
    omega
  | short s => exact value_short_mem s

/-- The encoding of an integer has its lowest 16 bits. -/
theorem toInt_value_ofInt (n : Int32) :
    (ofInt n).value.toInt = n.toInt.bmod 65536 := by
  unfold ofInt
  split
  · rename_i hsmall
    have hn : -1 ≤ n.toInt ∧ n.toInt ≤ 5 := between_iff.1 hsmall
    rw [toInt_value_const, ← toInt_eq_rank hn]
    exact (Int.bmod_eq_of_le (by omega) (by omega)).symm
  · split
    · rename_i hbyte
      have hn : -128 ≤ n.toInt ∧ n.toInt ≤ 127 := between_iff.1 hbyte
      rw [value, toInt32_of_byte hn]
      exact (Int.bmod_eq_of_le (by omega) (by omega)).symm
    · simp [value]

/-- An integer of a narrow word has 16 bits. -/
theorem fits_of_word16 (n : Int32) :
    (Directive.pushInt (Width.word16.wrap n)).Fits := by
  have hrange : -16384 ≤ (Width.word16.wrap n).toInt ∧
      (Width.word16.wrap n).toInt ≤ 16383 := Width.word16.inRange_wrap n
  have hshort : -32768 ≤ (Width.word16.wrap n).toInt ∧
      (Width.word16.wrap n).toInt ≤ 32767 := by omega
  exact between_iff.2 hshort

/-- The lowest 16 bits of an integer are enough to push it where they are
enough for what it is wrapped to. -/
theorem wrap_value_ofInt (hfits : (Directive.pushInt (w.wrap n)).Fits) :
    w.wrap (ofInt n).value = w.wrap n := by
  apply Int32.toInt_inj.1
  rw [Width.toInt_wrap, Width.toInt_wrap, toInt_value_ofInt]
  cases w with
  | word16 => exact Int.bmod_bmod_of_dvd (by decide)
  | word32 =>
    obtain ⟨hlo, hhi⟩ := between_iff.1 hfits
    rw [Width.toInt_wrap] at hlo hhi
    -- Cutting to 31 bits first does not change the lowest 16.
    have hcut : n.toInt.bmod 65536 =
        (n.toInt.bmod Width.word32.intCount).bmod 65536 :=
      (Int.bmod_bmod_of_dvd (by decide)).symm
    rw [hcut, Int.bmod_eq_of_le hlo (Int.lt_of_le_of_lt hhi (by decide))]
    exact Int.bmod_bmod

/-- What an integer is wrapped to can be pushed exactly if it has 16 bits. -/
theorem exists_wrap_iff :
    (∃ e : Immediate, w.wrap e.value = w.wrap n) ↔
      (Directive.pushInt (w.wrap n)).Fits := by
  constructor
  · intro h
    obtain ⟨e, he⟩ := h
    have hvalue := e.value_mem
    cases w with
    | word16 => exact fits_of_word16 n
    | word32 =>
      have hshort : IsShort e.value := by
        unfold IsShort
        omega
      rw [← he, Width.wrap_of_inRange (Width.inRange_of_short hshort)]
      exact between_iff.2 hvalue
  · intro hfits
    exact ⟨ofInt n, wrap_value_ofInt hfits⟩

/-! ## Bytes -/

theorem length_ofInt_le (n : Int32) : (ofInt n).bytes.length ≤ 3 := by
  unfold ofInt
  split
  · simp [bytes]
  · split <;> simp [bytes, bytesOfShort]

/-- The bytes for the wrapped integer are the shortest that push it. -/
theorem length_ofInt_wrap_le {e : Immediate}
    (h : w.wrap e.value = w.wrap n) :
    (ofInt (w.wrap n)).bytes.length ≤ e.bytes.length := by
  rw [← h]
  cases e with
  | const k =>
    have hvalue := toInt_value_const k
    have hsmall : IsSmall (const k).value := by
      unfold IsSmall
      omega
    have hrange : -1 ≤ (const k).value.toInt ∧ (const k).value.toInt ≤ 5 := by
      omega
    have hconst : -1 ≤ (const k).value ∧ (const k).value ≤ 5 :=
      between_iff.2 hrange
    rw [Width.wrap_of_inRange (w.inRange_of_small hsmall), ofInt,
      if_pos hconst]
    exact Nat.le_refl 1
  | byte b =>
    have hvalue := value_byte_mem b
    have hsmall : IsSmall (byte b).value := by
      unfold IsSmall
      omega
    have hbyte : -128 ≤ (byte b).value ∧ (byte b).value ≤ 127 :=
      between_iff.2 hvalue
    rw [Width.wrap_of_inRange (w.inRange_of_small hsmall), ofInt,
      if_pos hbyte]
    split
    · exact Nat.le_succ 1
    · exact Nat.le_refl 2
  | short s => exact length_ofInt_le _

/-- The bytes decode to one instruction, which runs the operation. -/
theorem decodes (e : Immediate) (hholds : Holds code pc e.bytes) :
    Decodes code pc (pc + e.bytes.length) (e.operation = ·) := by
  cases e with
  | const k => exact decodes_of_operation hholds (by simp [bytes]) rfl rfl
  | byte b => exact decodes_immediateByte hholds
  | short s => exact decodes_immediateShort hholds

theorem feature_operation (e : Immediate) :
    e.operation.opcode.feature? = none := by
  cases e <;> rfl

end Immediate

namespace Machine

open SlotVm.Action Store

variable {δ : Type} {config : Config} {image : Image} {p : Program}
variable {m n : Machine δ} {f : Frame} {callers : List Frame}

/-! ## Steps -/

/-- Where the bytes of an encoding are the next ones and the stack has room,
the step puts an integer on the operands, goes on behind the bytes, and
changes nothing else. -/
def Pushes (p : Program) (m : Machine δ) (e : Immediate) (v : Int32) : Prop :=
  ∀ f callers code, m.frames = f :: callers →
    p.codeOf f.method = .ok code → Holds code f.pc e.bytes →
    m.store.stack.size < m.store.stack.limit →
    ∃ m', step m = .ok .running m' ∧
      Replaced (m.store.stack.operands ++ [.int v])
        ({ f with pc := f.pc + e.bytes.length } :: callers) m m'

/-- All encodings run the same operation on the store. -/
theorem Turn.execute_immediate (h : Turn p f callers n) (e : Immediate) :
    Machine.execute e.operation n =
      proceed (Machine.onStore (Data.pushInt p.config.word e.value)) n := by
  rw [Machine.execute, seq_of_ok h.getProgram]
  cases e <;> rfl

/-- An encoding puts what its number is wrapped to. -/
theorem pushes_value (hm : m.Founded p) (ha : m.Active p) (e : Immediate) :
    Pushes p m e (p.config.word.wrap e.value) := by
  intro f callers code hframes hcurrent hholds hroom
  obtain ⟨i, hdecode, -, hnext, ho⟩ := e.decodes hholds
  obtain rfl := hm.program_eq
  have hfetch : m.fetch = .ok i := by
    apply fetch_of_decode hframes hcurrent hdecode
    rw [← ho, e.feature_operation]
    intro feature hfeature
    cases hfeature
  obtain ⟨n, hpoised, hstep⟩ := step_of_fetch hfetch hframes hm ha
  have hstack := hpoised.same.stack_eq
  rw [← hstack] at hroom ⊢
  obtain ⟨t, hpush, habove, ht⟩ := Stack.push_of_room
    hpoised.turn.founded.sound.bounded hroom
    (.int (m.program.config.word.wrap e.value))
  refine ⟨{ n with store := { n.store with stack := t } }, ?_, ?_⟩
  · rw [hstep, ← ho, hpoised.turn.execute_immediate]
    exact proceed_of_ok (onStore_of_ok (onStack_of_ok hpush))
  · rw [← ht, ← hnext, ← hpoised.turn.frames_eq]
    exact hpoised.replaced habove

/-- Pushing an integer wraps it.  The bytes that any assembler adds for an
integer of 32 bits stand in finished code where the push was written, and
decode to one instruction.  If what the integer is wrapped to has 16 bits,
which is always so for narrow words, this is what a step puts on the operands
that finds the bytes and a stack with room.  No encoding that pushes the same
integer is shorter than the bytes for the wrapped integer, and for an integer
of the width none is shorter than its own bytes. -/
theorem pushInt_wraps (hm : InRun config image m) (n : Int32) :
    (∀ a : Assembler, a.pushInt n = a.add (.bytes (Immediate.ofInt n).bytes)) ∧
    (∀ layout ds c code q, assembleFrom (.empty layout) ds = .ok c →
      c.finish = .ok code → StandsAt (.empty layout) ds (.pushInt n) q →
      Holds code q (Immediate.ofInt n).bytes) ∧
    (∀ code q, Holds code q (Immediate.ofInt n).bytes →
      Decodes code q (q + (Immediate.ofInt n).bytes.length)
        ((Immediate.ofInt n).operation = ·)) ∧
    ((Directive.pushInt (config.word.wrap n)).Fits →
      Pushes (.load config image) m (.ofInt n) (config.word.wrap n)) ∧
    (config.word = .word16 → (Directive.pushInt (config.word.wrap n)).Fits) ∧
    ∀ e : Immediate,
      Pushes (.load config image) m e (config.word.wrap e.value) ∧
      (config.word.wrap e.value = config.word.wrap n →
        (Immediate.ofInt (config.word.wrap n)).bytes.length ≤
          e.bytes.length ∧
        (config.word.InRange n →
          (Immediate.ofInt n).bytes.length ≤ e.bytes.length)) := by
  obtain ⟨hfounded, hactive⟩ := hm.invariant
  have hpushes : ∀ e : Immediate,
      Pushes (.load config image) m e (config.word.wrap e.value) :=
    pushes_value (p := .load config image) hfounded hactive
  refine ⟨?_, ?_, ?_, ?_, ?_, ?_⟩
  · intro a
    rw [pushInt_eq, Immediate.bytes_ofInt]
  · intro layout ds c code q hrun hfinish hstands
    obtain ⟨bytes, hbytes, hholds⟩ := hstands.holds hrun hfinish rfl
    cases hbytes
    rw [Immediate.bytes_ofInt]
    exact hholds
  · intro code q hholds
    exact (Immediate.ofInt n).decodes hholds
  · intro hfits
    rw [← Immediate.wrap_value_ofInt hfits]
    exact hpushes (.ofInt n)
  · intro hword
    rw [hword]
    exact Immediate.fits_of_word16 n
  · intro e
    refine ⟨hpushes e, fun he => ?_⟩
    have hshortest := Immediate.length_ofInt_wrap_le he
    refine ⟨hshortest, fun hrange => ?_⟩
    rw [Width.wrap_of_inRange hrange] at hshortest
    exact hshortest

/-- The entry point runs the given bytes and returns an integer. -/
def returning (bytes : List UInt8) : Image where
  classes := [⟨0, none, 0⟩]
  methods := #[⟨0, 0, 0, 0, 1, .bytecode 0 (UInt32.ofNat (bytes.length + 1))⟩]
  constants := #[]
  code := (bytes ++ [0xac]).toArray
  staticFields := 0
  main := ⟨0, 0⟩

/-- The greatest number of 16 bits, on narrow words. -/
theorem pushInt_wraps_narrow : ∃ m m' : Machine Unit,
    InRun .asuro (returning [0x11, 0x7f, 0xff]) m ∧
    step m = .ok .running m' ∧
    m'.store.stack.operands = m.store.stack.operands ++ [.int (-1)] := by
  have htest : (fresh? .asuro (returning [0x11, 0x7f, 0xff])).any (fun m0 =>
      (paused? 0 ⟨0, 0⟩ m0).any fun m =>
        m.frames.map (fun f => (f.method, f.pc)) == [(0, 0)] &&
          decide (m.store.stack.size < m.store.stack.limit)) = true := by
    decide +kernel
  simp only [Option.any_eq_true, Bool.and_eq_true, beq_iff_eq,
    decide_eq_true_eq] at htest
  obtain ⟨m0, hfresh, m, hpaused, hframes, hroom⟩ := htest
  have hm : InRun .asuro (returning [0x11, 0x7f, 0xff]) m :=
    ⟨m0, 0, _, rests_of_fresh hfresh, run_of_paused hpaused⟩
  obtain ⟨f, hf, hplace⟩ := List.map_eq_singleton_iff.1 hframes
  obtain ⟨hmethod, hpc⟩ := Prod.mk.inj hplace
  have hcurrent : (Program.load .asuro
      (returning [0x11, 0x7f, 0xff])).codeOf 0 =
        .ok #[0x11, 0x7f, 0xff, 0xac] := by decide +kernel
  have hrun : ∃ c, assembleFrom (.empty .standard)
      [.pushInt 32767, .op (.plain (.returnValue .int))] = .ok c ∧
        c.finish = .ok #[0x11, 0x7f, 0xff, 0xac] := ⟨_, rfl, rfl⟩
  have hstands : StandsAt (.empty .standard)
      [.pushInt 32767, .op (.plain (.returnValue .int))] (.pushInt 32767) 0 :=
    ⟨[], _, [.op (.plain (.returnValue .int))], _, rfl, rfl, rfl, rfl⟩
  have hwrap : Config.asuro.word.wrap 32767 = -1 := by decide
  obtain ⟨c, hassemble, hfinish⟩ := hrun
  obtain ⟨-, hwritten, -, hpushes, hnarrow, -⟩ := pushInt_wraps hm 32767
  have hholds := hwritten _ _ c _ 0 hassemble hfinish hstands
  obtain ⟨m', hstep, hreplaced⟩ := hpushes (hnarrow rfl) f [] _ hf
    (hmethod ▸ hcurrent) (hpc ▸ hholds) hroom
  refine ⟨m, m', hm, hstep, ?_⟩
  rw [hreplaced.operands_eq, hwrap]

/-- A run of the bytes ends with an integer. -/
def RunsTo (config : Config) (bytes : List UInt8) (v : Int32) : Prop :=
  ∃ m m' : Machine Unit, Rests config (returning bytes) m ∧
    run 2 ⟨0, 0⟩ m = .ok (.finished (some (.int v))) m'

theorem runsTo_of_test {bytes : List UInt8} {v : Int32} (hv : v ≠ 0)
    (htest : (fresh? config (returning bytes)).any (fun m =>
      (ended? 2 ⟨0, 0⟩ m).any fun x =>
        x.1.any fun u => (u.asInt "").toOption == some v) = true) :
    RunsTo config bytes v := by
  simp only [Option.any_eq_true, beq_iff_eq] at htest
  obtain ⟨m, hfresh, ⟨_, m'⟩, hended, u, rfl, hint⟩ := htest
  rcases Value.asInt_ok (eq_ok_of_toOption hint) with rfl | ⟨-, hzero⟩
  · exact ⟨m, m', rests_of_fresh hfresh, run_of_ended hended⟩
  · exact absurd hzero hv

/-- Bytes are not always the shortest, nor do they push every integer.  On
narrow words 32767 is wrapped to -1, for which one byte is enough, and the
lowest 16 bits of 40000 are those of another integer. -/
theorem pushInt_inexact :
    ((∀ a : Assembler, a.pushInt 32767 = a.add (.bytes [0x11, 0x7f, 0xff])) ∧
      Config.asuro.word.wrap 32767 = -1 ∧
      RunsTo .asuro [0x11, 0x7f, 0xff] (-1) ∧
      (Immediate.const 0).bytes = [0x02] ∧ RunsTo .asuro [0x02] (-1)) ∧
    (∀ a : Assembler, a.pushInt 40000 = a.add (.bytes [0x11, 0x9c, 0x40])) ∧
      Config.unix.word.wrap 40000 = 40000 ∧
      RunsTo .unix [0x11, 0x9c, 0x40] (-25536) := by
  refine ⟨⟨fun _ => rfl, by decide, ?_, rfl, ?_⟩, fun _ => rfl, by decide, ?_⟩
  · exact runsTo_of_test (by decide) (by decide +kernel)
  · exact runsTo_of_test (by decide) (by decide +kernel)
  · exact runsTo_of_test (by decide) (by decide +kernel)

end Machine

end SlotVm
