import SlotVm.Code.Listing
import SlotVm.Proofs.Encode

/-!
# The grammar of code

`Instruction.Complete` says of some code that an instruction with a given
opcode stands at a position.  It speaks of bytes and their places only.  The
bytes of the operands lie in the code, the bounds of a table are in order, no
number of pairs is negative, and all offsets lead into the code.
`operationOf` is the operation that these bytes write, and `endOf` is where
they end.

The decoder accepts exactly what is complete, and gives that operation
(`decode_eq_ok_iff`).  It refuses a table or a row of pairs by its number of
entries before it reads them, but such a row would not fit into the code
(`tableSwitchAt_eq_ok_iff`, `lookupSwitchAt_eq_ok_iff`).

There are four groups of lemmas.

* What stands at a position: bytes and big-endian numbers.
* The grammar.
* One statement for each reader, which says when it succeeds and what it
  reads.
* The sweep of a listing, which goes from one instruction to the next one
  until the end of the code or the first position that does not decode.
-/

namespace SlotVm

namespace Instruction

variable {code : Array UInt8} {pc position count stop : Nat} {o : Operation}

/-! ## What stands at a position -/

/-- The byte at a position. -/
def byteOf (code : Array UInt8) (position : Nat) : UInt8 :=
  code.getD position 0

/-- The number that two bytes write, the most significant first. -/
def shortOf (code : Array UInt8) (position : Nat) : Nat :=
  256 * (byteOf code position).toNat + (byteOf code (position + 1)).toNat

/-- The number that four bytes write, the most significant first. -/
def wordOf (code : Array UInt8) (position : Nat) : Nat :=
  65536 * shortOf code position + shortOf code (position + 2)

/-- The byte as a number with a sign. -/
def signedByte (code : Array UInt8) (position : Nat) : Int :=
  Int.bmod (byteOf code position).toNat 256

def signedShort (code : Array UInt8) (position : Nat) : Int :=
  Int.bmod (shortOf code position) 65536

def signedWord (code : Array UInt8) (position : Nat) : Int :=
  Int.bmod (wordOf code position) 4294967296

/-- What stands in a row of entries of one size. -/
def rowOf {α : Type} (read : Nat → α) (start width count : Nat) : List α :=
  (List.range count).map fun k => read (start + width * k)

/-- The row behind its first entry. -/
theorem rowOf_succ {α : Type} (read : Nat → α) (start width count : Nat) :
    rowOf read start width (count + 1) =
      read start :: rowOf read (start + width) width count := by
  have hshift : ∀ k, start + width * (k + 1) = start + width + width * k := by
    intro k
    rw [Nat.mul_succ, Nat.add_assoc, Nat.add_comm width]
  unfold rowOf
  rw [List.range_succ_eq_map, List.map_cons, List.map_map]
  simp only [Function.comp_def, Nat.succ_eq_add_one, hshift, Nat.mul_zero,
    Nat.add_zero]

/-- A word with a sign as an integer of the machine. -/
theorem toInt_signedWord (code : Array UInt8) (position : Nat) :
    (Int32.ofInt (signedWord code position)).toInt =
      signedWord code position := by
  rw [Int32.toInt_ofInt]
  exact Int.bmod_bmod

theorem ofNat_wordOf (code : Array UInt8) (position : Nat) :
    Int32.ofNat (wordOf code position) =
      Int32.ofInt (signedWord code position) := by
  apply Int32.toInt_inj.1
  rw [toInt_signedWord, Int32.toInt_ofNat']
  rfl

theorem toInt_ofNat_shortOf (code : Array UInt8) (position : Nat) :
    (UInt16.ofNat (shortOf code position)).toInt16.toInt =
      signedShort code position := by
  rw [← Int16.toInt_toBitVec, UInt16.toBitVec_toInt16, UInt16.toBitVec_ofNat']
  exact BitVec.toInt_ofNat ..

theorem toInt_byteOf (code : Array UInt8) (position : Nat) :
    (byteOf code position).toInt8.toInt = signedByte code position := by
  rw [← Int8.toInt_toBitVec, UInt8.toBitVec_toInt8]
  exact BitVec.toInt_eq_toNat_bmod _

/-! ## The grammar -/

/-- Number of targets of a table switch: one for each number from the lower
bound to the upper one. -/
def tableCount (code : Array UInt8) (pc : Nat) : Nat :=
  (signedWord code (switchStart pc + 8) -
    signedWord code (switchStart pc + 4) + 1).toNat

/-- Number of pairs of a lookup switch. -/
def pairCount (code : Array UInt8) (pc : Nat) : Nat :=
  (signedWord code (switchStart pc + 4)).toNat

/-- Position behind the operands of an opcode.  Those of a switch start at a
multiple of four, with three numbers and a row of offsets, or with two numbers
and a row of pairs. -/
def endOf (code : Array UInt8) (pc : Nat) : Opcode → Nat
  | .tableSwitch => switchStart pc + 12 + 4 * tableCount code pc
  | .lookupSwitch => switchStart pc + 8 + 8 * pairCount code pc
  | op => pc + 1 + op.operandLen?.getD 0

/-- All offsets among the operands, each of them from the position of the
opcode. -/
def offsetsOf (code : Array UInt8) (pc : Nat) : Opcode → List Int
  | .branch _ => [signedShort code (pc + 1)]
  | .tableSwitch => signedWord code (switchStart pc) ::
      rowOf (signedWord code) (switchStart pc + 12) 4 (tableCount code pc)
  | .lookupSwitch => signedWord code (switchStart pc) ::
      rowOf (fun position => signedWord code (position + 4))
        (switchStart pc + 8) 8 (pairCount code pc)
  | _ => []

/-- The offset leads into the code. -/
def Reaches (code : Array UInt8) (pc : Nat) (offset : Int) : Prop :=
  0 ≤ pc + offset ∧ pc + offset < code.size

instance (code : Array UInt8) (pc : Nat) (offset : Int) :
    Decidable (Reaches code pc offset) :=
  inferInstanceAs (Decidable (_ ∧ _))

/-- The operands of an opcode at `pc` are complete. -/
structure Fits (code : Array UInt8) (pc : Nat) (op : Opcode) : Prop where
  end_le : endOf code pc op ≤ code.size
  bounds_le : op = .tableSwitch → signedWord code (switchStart pc + 4) ≤
    signedWord code (switchStart pc + 8)
  count_nonneg : op = .lookupSwitch →
    0 ≤ signedWord code (switchStart pc + 4)
  reaches : ∀ offset ∈ offsetsOf code pc op, Reaches code pc offset

/-- There is a complete instruction with this opcode at `pc`. -/
structure Complete (code : Array UInt8) (pc : Nat) (op : Opcode) : Prop
    extends Fits code pc op where
  byte_eq : code[pc]? = some op.byte

theorem complete_iff {op : Opcode} : Complete code pc op ↔
    code[pc]? = some op.byte ∧ endOf code pc op ≤ code.size ∧
      (op = .tableSwitch → signedWord code (switchStart pc + 4) ≤
        signedWord code (switchStart pc + 8)) ∧
      (op = .lookupSwitch → 0 ≤ signedWord code (switchStart pc + 4)) ∧
      ∀ offset ∈ offsetsOf code pc op, Reaches code pc offset :=
  ⟨fun h => ⟨h.byte_eq, h.end_le, h.bounds_le, h.count_nonneg, h.reaches⟩,
    fun h => ⟨⟨h.2.1, h.2.2.1, h.2.2.2.1, h.2.2.2.2⟩, h.1⟩⟩

instance (code : Array UInt8) (pc : Nat) (op : Opcode) :
    Decidable (Complete code pc op) :=
  decidable_of_iff' _ complete_iff

/-- The position that the offset at a position leads to. -/
def goalOf (code : Array UInt8) (pc position : Nat) : Nat :=
  (pc + signedWord code position).toNat

/-- The key at a position, with the position that the offset behind it leads
to. -/
def pairOf (code : Array UInt8) (pc position : Nat) : Int32 × Nat :=
  (Int32.ofInt (signedWord code position), goalOf code pc (position + 4))

/-- The operation that a complete instruction writes. -/
def operationOf (code : Array UInt8) (pc : Nat) : Opcode → Operation
  | .plain op => .plain op
  | .immediate .byte =>
      .immediate .byte (Int32.ofInt (signedByte code (pc + 1)))
  | .immediate .short =>
      .immediate .short (Int32.ofInt (signedShort code (pc + 1)))
  | .byteOperand op => .byteOperand op (byteOf code (pc + 1))
  | .index op => .index op (UInt16.ofNat (shortOf code (pc + 1)))
  | .branch op => .branch op (pc + signedShort code (pc + 1)).toNat
  | .increment =>
      .increment (byteOf code (pc + 1)) (Int8.ofInt (signedByte code (pc + 2)))
  | .tableSwitch =>
      .tableSwitch (goalOf code pc (switchStart pc))
        (Int32.ofInt (signedWord code (switchStart pc + 4)))
        (rowOf (goalOf code pc) (switchStart pc + 12) 4 (tableCount code pc))
  | .lookupSwitch =>
      .lookupSwitch (goalOf code pc (switchStart pc))
        (rowOf (pairOf code pc) (switchStart pc + 8) 8 (pairCount code pc))

/-! ## Readers -/

/-- The bytes that stand at a position. -/
def bytesOf (code : Array UInt8) (position count : Nat) : List UInt8 :=
  (List.range count).map fun k => byteOf code (position + k)

theorem bytesAt_eq_ok_iff {bytes : List UInt8} :
    bytesAt code pc position count = .ok bytes ↔
      position + count ≤ code.size ∧ bytes = bytesOf code position count := by
  unfold bytesAt
  split
  · rename_i hend
    have hbytes : (code.extract position (position + count)).toList =
        bytesOf code position count := by
      apply List.ext_getElem
      · simp only [bytesOf, Array.length_toList, Array.size_extract,
          List.length_map, List.length_range]
        omega
      · intro k hk hk'
        simp only [bytesOf, List.length_map, List.length_range] at hk'
        simp only [bytesOf, byteOf, Array.getElem_toList,
          Array.getElem_extract, List.getElem_map, List.getElem_range,
          Array.getD_eq_getD_getElem?]
        rw [getElem?_pos code _ (by omega)]
        rfl
    rw [hbytes, Except.ok.injEq]
    exact ⟨fun h => ⟨hend, h.symm⟩, fun h => h.2.symm⟩
  · rename_i hend
    exact iff_of_false (by simp) fun h => hend h.1

/-- A reader that makes something of what another one reads. -/
theorem map_eq_ok_iff {α β : Type} {r : Except Fault α} {P : Prop} {x : α}
    (hr : ∀ {x'}, r = .ok x' ↔ P ∧ x' = x) {f : α → β} {y : β} :
    (do let a ← r
        return f a : Except Fault β) = .ok y ↔ P ∧ y = f x := by
  constructor
  · intro h
    obtain ⟨a, ha, hy⟩ := bind_eq_ok h
    obtain ⟨hP, rfl⟩ := hr.1 ha
    cases hy
    exact ⟨hP, rfl⟩
  · intro h
    obtain ⟨hP, rfl⟩ := h
    rw [bind_of_ok (hr.2 ⟨hP, rfl⟩)]
    rfl

/-- One more byte behind the others. -/
theorem bigEndian_bytesOf_succ (code : Array UInt8) (position count : Nat) :
    bigEndian (bytesOf code position (count + 1)) =
      bigEndian (bytesOf code position count) * 256 +
        (byteOf code (position + count)).toNat := by
  unfold bigEndian bytesOf
  rw [List.range_succ, List.map_append, List.foldl_append]
  rfl

theorem bigEndian_bytesOf_one (code : Array UInt8) (position : Nat) :
    bigEndian (bytesOf code position 1) = (byteOf code position).toNat :=
  Nat.zero_add _

theorem bigEndian_bytesOf_two (code : Array UInt8) (position : Nat) :
    bigEndian (bytesOf code position 2) = shortOf code position := by
  rw [bigEndian_bytesOf_succ, bigEndian_bytesOf_one, shortOf, Nat.mul_comm 256]

theorem bigEndian_bytesOf_four (code : Array UInt8) (position : Nat) :
    bigEndian (bytesOf code position 4) = wordOf code position := by
  have hlast : position + 2 + 1 = position + 3 := rfl
  rw [bigEndian_bytesOf_succ, bigEndian_bytesOf_succ, bigEndian_bytesOf_two,
    wordOf, shortOf, shortOf, hlast]
  omega

theorem byteAt_eq_ok_iff {b : UInt8} :
    byteAt code pc position = .ok b ↔
      position + 1 ≤ code.size ∧ b = byteOf code position := by
  rw [byteAt, map_eq_ok_iff bytesAt_eq_ok_iff, bigEndian_bytesOf_one,
    UInt8.ofNat_toNat]

theorem shortAt_eq_ok_iff {n : UInt16} :
    shortAt code pc position = .ok n ↔
      position + 2 ≤ code.size ∧ n = UInt16.ofNat (shortOf code position) := by
  rw [shortAt, map_eq_ok_iff bytesAt_eq_ok_iff, bigEndian_bytesOf_two]

theorem wordAt_eq_ok_iff {n : Int32} :
    wordAt code pc position = .ok n ↔
      position + 4 ≤ code.size ∧
        n = Int32.ofInt (signedWord code position) := by
  rw [wordAt, map_eq_ok_iff bytesAt_eq_ok_iff, bigEndian_bytesOf_four,
    ofNat_wordOf]

theorem target_eq_ok_iff {offset : Int} {t : Nat} :
    target code pc offset = .ok t ↔
      Reaches code pc offset ∧ t = (pc + offset).toNat := by
  unfold target Reaches
  simp only
  split
  · rename_i hreach
    rw [Except.ok.injEq]
    exact ⟨fun h => ⟨hreach, h.symm⟩, fun h => h.2.symm⟩
  · rename_i hreach
    exact iff_of_false (by simp) fun h => hreach h.1

/-- A row of offsets. -/
theorem targetsAt_eq_ok_iff (hposition : position ≤ code.size)
    {targets : List Nat} :
    targetsAt code pc count position = .ok targets ↔
      position + 4 * count ≤ code.size ∧
        (∀ offset ∈ rowOf (signedWord code) position 4 count,
          Reaches code pc offset) ∧
        targets = rowOf (goalOf code pc) position 4 count := by
  induction count generalizing position targets with
  | zero => simp [targetsAt, rowOf, hposition, pure, Except.pure, eq_comm]
  | succ count ih =>
    rw [rowOf_succ, rowOf_succ, List.forall_mem_cons]
    constructor
    · intro h
      obtain ⟨offset, hoffset, h⟩ := bind_eq_ok h
      obtain ⟨first, hfirst, h⟩ := bind_eq_ok h
      obtain ⟨rest, hrest, h⟩ := bind_eq_ok h
      cases h
      obtain ⟨hend, rfl⟩ := wordAt_eq_ok_iff.1 hoffset
      rw [toInt_signedWord] at hfirst
      obtain ⟨hreach, hgoal⟩ := target_eq_ok_iff.1 hfirst
      obtain ⟨hstop, hall, hrow⟩ := (ih hend).1 hrest
      exact ⟨by omega, ⟨hreach, hall⟩, by rw [hgoal, hrow, goalOf]⟩
    · intro h
      obtain ⟨hstop, ⟨hreach, hall⟩, rfl⟩ := h
      have hend : position + 4 ≤ code.size := by omega
      rw [targetsAt, bind_of_ok (wordAt_eq_ok_iff.2 ⟨hend, rfl⟩),
        toInt_signedWord, bind_of_ok (target_eq_ok_iff.2 ⟨hreach, rfl⟩),
        bind_of_ok ((ih hend).2 ⟨by omega, hall, rfl⟩)]
      rfl

/-- A row of keys with offsets. -/
theorem pairsAt_eq_ok_iff (hposition : position ≤ code.size)
    {pairs : List (Int32 × Nat)} :
    pairsAt code pc count position = .ok pairs ↔
      position + 8 * count ≤ code.size ∧
        (∀ offset ∈ rowOf (fun p => signedWord code (p + 4)) position 8 count,
          Reaches code pc offset) ∧
        pairs = rowOf (pairOf code pc) position 8 count := by
  induction count generalizing position pairs with
  | zero => simp [pairsAt, rowOf, hposition, pure, Except.pure, eq_comm]
  | succ count ih =>
    rw [rowOf_succ, rowOf_succ, List.forall_mem_cons]
    constructor
    · intro h
      obtain ⟨key, hkey, h⟩ := bind_eq_ok h
      obtain ⟨offset, hoffset, h⟩ := bind_eq_ok h
      obtain ⟨first, hfirst, h⟩ := bind_eq_ok h
      obtain ⟨rest, hrest, h⟩ := bind_eq_ok h
      cases h
      obtain ⟨-, rfl⟩ := wordAt_eq_ok_iff.1 hkey
      obtain ⟨hend, rfl⟩ := wordAt_eq_ok_iff.1 hoffset
      rw [toInt_signedWord] at hfirst
      obtain ⟨hreach, hgoal⟩ := target_eq_ok_iff.1 hfirst
      obtain ⟨hstop, hall, hrow⟩ := (ih (by omega)).1 hrest
      exact ⟨by omega, ⟨hreach, hall⟩, by rw [hgoal, hrow, pairOf, goalOf]⟩
    · intro h
      obtain ⟨hstop, ⟨hreach, hall⟩, rfl⟩ := h
      have hend : position + 8 ≤ code.size := by omega
      have hkey : wordAt code pc position =
          .ok (Int32.ofInt (signedWord code position)) :=
        wordAt_eq_ok_iff.2 ⟨by omega, rfl⟩
      rw [pairsAt, bind_of_ok hkey,
        bind_of_ok (wordAt_eq_ok_iff.2 ⟨by omega, rfl⟩), toInt_signedWord,
        bind_of_ok (target_eq_ok_iff.2 ⟨hreach, rfl⟩),
        bind_of_ok ((ih hend).2 ⟨by omega, hall, rfl⟩)]
      rfl

/-! ## Operands -/

/-- A word that can be read. -/
theorem wordAt_of_le (hend : position + 4 ≤ code.size) :
    wordAt code pc position = .ok (Int32.ofInt (signedWord code position)) :=
  wordAt_eq_ok_iff.2 ⟨hend, rfl⟩

/-- The number of entries that the decoder computes. -/
theorem tableCount_of_le (hbounds : signedWord code (switchStart pc + 4) ≤
    signedWord code (switchStart pc + 8)) :
    (signedWord code (switchStart pc + 8) -
      signedWord code (switchStart pc + 4)).toNat + 1 =
      tableCount code pc := by
  unfold tableCount
  omega

/-- A table that is refused for its number of entries is not complete. -/
theorem tableSwitchAt_eq_ok_iff :
    tableSwitchAt code pc = .ok (o, stop) ↔ Fits code pc .tableSwitch ∧
      o = operationOf code pc .tableSwitch ∧
      stop = endOf code pc .tableSwitch := by
  rw [tableSwitchAt, clearBits_eq]
  constructor
  · intro h
    obtain ⟨offset, hoffset, h⟩ := bind_eq_ok h
    obtain ⟨low, hlow, h⟩ := bind_eq_ok h
    obtain ⟨high, hhigh, h⟩ := bind_eq_ok h
    obtain ⟨-, rfl⟩ := wordAt_eq_ok_iff.1 hoffset
    obtain ⟨-, rfl⟩ := wordAt_eq_ok_iff.1 hlow
    obtain ⟨hend, rfl⟩ := wordAt_eq_ok_iff.1 hhigh
    split at h
    · cases h
    rename_i hordered
    rw [Int32.lt_iff_toInt_lt, toInt_signedWord, toInt_signedWord] at hordered
    have hbounds := Int.not_lt.1 hordered
    simp only [toInt_signedWord, tableCount_of_le hbounds] at h
    split at h
    · cases h
    obtain ⟨fallback, hfallback, h⟩ := bind_eq_ok h
    obtain ⟨targets, htargets, h⟩ := bind_eq_ok h
    cases h
    obtain ⟨hreach, hgoal⟩ := target_eq_ok_iff.1 hfallback
    obtain ⟨hstop, hall, hrow⟩ := (targetsAt_eq_ok_iff hend).1 htargets
    refine ⟨⟨hstop, fun _ => hbounds, fun h => ?_, ?_⟩, ?_, rfl⟩
    · cases h
    · exact List.forall_mem_cons.2 ⟨hreach, hall⟩
    · rw [hgoal, hrow, operationOf, goalOf]
  · intro h
    obtain ⟨hfits, ho, hend⟩ := h
    rw [ho, hend]
    have hstop : switchStart pc + 12 + 4 * tableCount code pc ≤ code.size :=
      hfits.end_le
    have hbounds := hfits.bounds_le rfl
    obtain ⟨hreach, hall⟩ := List.forall_mem_cons.1 hfits.reaches
    have hordered : ¬ Int32.ofInt (signedWord code (switchStart pc + 8)) <
        Int32.ofInt (signedWord code (switchStart pc + 4)) := by
      rw [Int32.lt_iff_toInt_lt, toInt_signedWord, toInt_signedWord]
      exact Int.not_lt.2 hbounds
    have hroom : ¬ code.size / 4 < tableCount code pc := by omega
    rw [bind_of_ok (wordAt_of_le (by omega)),
      bind_of_ok (wordAt_of_le (by omega)),
      bind_of_ok (wordAt_of_le (by omega))]
    simp only [if_neg hordered, toInt_signedWord, tableCount_of_le hbounds,
      if_neg hroom]
    rw [bind_of_ok (target_eq_ok_iff.2 ⟨hreach, rfl⟩),
      bind_of_ok ((targetsAt_eq_ok_iff (by omega)).2 ⟨hstop, hall, rfl⟩)]
    rfl

/-- A row of pairs that is refused for its number of entries is not complete
either. -/
theorem lookupSwitchAt_eq_ok_iff :
    lookupSwitchAt code pc = .ok (o, stop) ↔ Fits code pc .lookupSwitch ∧
      o = operationOf code pc .lookupSwitch ∧
      stop = endOf code pc .lookupSwitch := by
  have hzero : (0 : Int32).toInt = 0 := rfl
  rw [lookupSwitchAt, clearBits_eq]
  constructor
  · intro h
    obtain ⟨offset, hoffset, h⟩ := bind_eq_ok h
    obtain ⟨n, hn, h⟩ := bind_eq_ok h
    obtain ⟨-, rfl⟩ := wordAt_eq_ok_iff.1 hoffset
    obtain ⟨hend, rfl⟩ := wordAt_eq_ok_iff.1 hn
    split at h
    · cases h
    rename_i hcount
    rw [Int32.lt_iff_toInt_lt, toInt_signedWord, hzero] at hcount
    have hnonneg : 0 ≤ signedWord code (switchStart pc + 4) := by omega
    simp only [toInt_signedWord] at h
    obtain ⟨fallback, hfallback, h⟩ := bind_eq_ok h
    obtain ⟨pairs, hpairs, h⟩ := bind_eq_ok h
    cases h
    obtain ⟨hreach, hgoal⟩ := target_eq_ok_iff.1 hfallback
    obtain ⟨hstop, hall, hrow⟩ := (pairsAt_eq_ok_iff hend).1 hpairs
    refine ⟨⟨hstop, fun h => ?_, fun _ => hnonneg, ?_⟩, ?_, rfl⟩
    · cases h
    · exact List.forall_mem_cons.2 ⟨hreach, hall⟩
    · rw [hgoal, hrow, operationOf, goalOf, pairCount]
  · intro h
    obtain ⟨hfits, ho, hend⟩ := h
    rw [ho, hend]
    have hstop : switchStart pc + 8 + 8 * pairCount code pc ≤ code.size :=
      hfits.end_le
    have hnonneg := hfits.count_nonneg rfl
    obtain ⟨hreach, hall⟩ := List.forall_mem_cons.1 hfits.reaches
    have hcount : (pairCount code pc : Int) =
        signedWord code (switchStart pc + 4) := Int.toNat_of_nonneg hnonneg
    have hroom : ¬ (Int32.ofInt (signedWord code (switchStart pc + 4)) < 0 ∨
        ((code.size / 8 : Nat) : Int) <
          signedWord code (switchStart pc + 4)) := by
      rw [Int32.lt_iff_toInt_lt, toInt_signedWord, hzero]
      omega
    rw [bind_of_ok (wordAt_of_le (by omega)),
      bind_of_ok (wordAt_of_le (by omega))]
    have hpairs : pairsAt code pc (pairCount code pc) (switchStart pc + 8) =
        .ok _ := (pairsAt_eq_ok_iff (by omega)).2 ⟨hstop, hall, rfl⟩
    rw [pairCount] at hpairs
    simp only [toInt_signedWord, if_neg hroom]
    rw [bind_of_ok (target_eq_ok_iff.2 ⟨hreach, rfl⟩), bind_of_ok hpairs]
    rfl

/-- Operands without an offset are complete if they end inside the code. -/
theorem fits_iff_end_le {op : Opcode} (hoffsets : offsetsOf code pc op = [])
    (htable : op ≠ .tableSwitch) (hlookup : op ≠ .lookupSwitch) :
    Fits code pc op ↔ endOf code pc op ≤ code.size := by
  refine ⟨fun h => h.end_le, fun hend => ⟨hend, ?_, ?_, ?_⟩⟩
  · exact fun h => absurd h htable
  · exact fun h => absurd h hlookup
  · rw [hoffsets]
    exact fun _ h => absurd h List.not_mem_nil

theorem fits_branch_iff {op : BranchOp} :
    Fits code pc (.branch op) ↔
      pc + 3 ≤ code.size ∧ Reaches code pc (signedShort code (pc + 1)) := by
  constructor
  · exact fun h => ⟨h.end_le, h.reaches _ List.mem_cons_self⟩
  · intro h
    obtain ⟨hend, hreach⟩ := h
    refine ⟨hend, fun h => ?_, fun h => ?_, ?_⟩
    · cases h
    · cases h
    · exact List.forall_mem_singleton.2 hreach

/-- The operands of every opcode can be read if they are complete. -/
theorem operationAt_eq_ok_iff (hpc : pc < code.size) (op : Opcode) :
    operationAt code pc op = .ok (o, stop) ↔ Fits code pc op ∧
      o = operationOf code pc op ∧ stop = endOf code pc op := by
  cases op with
  | plain op =>
    rw [fits_iff_end_le rfl (by simp) (by simp), operationAt]
    constructor
    · intro h
      cases h
      exact ⟨hpc, rfl, rfl⟩
    · intro h
      obtain ⟨-, rfl, rfl⟩ := h
      rfl
  | immediate op =>
    rw [fits_iff_end_le rfl (by simp) (by simp)]
    cases op with
    | byte =>
      rw [operationAt, map_eq_ok_iff byteAt_eq_ok_iff, Prod.mk.injEq,
        ← Int32.ofInt_int8ToInt, toInt_byteOf]
      rfl
    | short =>
      rw [operationAt, map_eq_ok_iff shortAt_eq_ok_iff, Prod.mk.injEq,
        ← Int32.ofInt_int16ToInt, toInt_ofNat_shortOf]
      rfl
  | byteOperand op =>
    rw [fits_iff_end_le rfl (by simp) (by simp), operationAt,
      map_eq_ok_iff byteAt_eq_ok_iff, Prod.mk.injEq]
    rfl
  | index op =>
    rw [fits_iff_end_le rfl (by simp) (by simp), operationAt,
      map_eq_ok_iff shortAt_eq_ok_iff, Prod.mk.injEq]
    rfl
  | branch op =>
    rw [fits_branch_iff]
    constructor
    · intro h
      obtain ⟨offset, hoffset, h⟩ := bind_eq_ok h
      obtain ⟨destination, hdestination, h⟩ := bind_eq_ok h
      cases h
      obtain ⟨hend, rfl⟩ := shortAt_eq_ok_iff.1 hoffset
      rw [toInt_ofNat_shortOf] at hdestination
      obtain ⟨hreach, hgoal⟩ := target_eq_ok_iff.1 hdestination
      exact ⟨⟨hend, hreach⟩, by rw [hgoal, operationOf], rfl⟩
    · intro h
      obtain ⟨⟨hend, hreach⟩, ho, hstop⟩ := h
      rw [ho, hstop, operationAt,
        bind_of_ok (shortAt_eq_ok_iff.2 ⟨hend, rfl⟩), toInt_ofNat_shortOf,
        bind_of_ok (target_eq_ok_iff.2 ⟨hreach, rfl⟩)]
      rfl
  | increment =>
    rw [fits_iff_end_le rfl (by simp) (by simp)]
    constructor
    · intro h
      obtain ⟨slot, hslot, h⟩ := bind_eq_ok h
      obtain ⟨delta, hdelta, h⟩ := bind_eq_ok h
      cases h
      obtain ⟨-, rfl⟩ := byteAt_eq_ok_iff.1 hslot
      obtain ⟨hend, rfl⟩ := byteAt_eq_ok_iff.1 hdelta
      refine ⟨hend, ?_, rfl⟩
      rw [operationOf, ← toInt_byteOf, Int8.ofInt_toInt]
    · intro h
      obtain ⟨hend, ho, hstop⟩ := h
      have hend' : pc + 2 + 1 ≤ code.size := hend
      rw [ho, hstop, operationAt,
        bind_of_ok (byteAt_eq_ok_iff.2 ⟨by omega, rfl⟩),
        bind_of_ok (byteAt_eq_ok_iff.2 ⟨hend', rfl⟩), operationOf,
        ← toInt_byteOf, Int8.ofInt_toInt]
      rfl
  | tableSwitch => exact tableSwitchAt_eq_ok_iff
  | lookupSwitch => exact lookupSwitchAt_eq_ok_iff

/-! ## Instructions -/

/-- The operands end behind the opcode. -/
theorem lt_endOf (code : Array UInt8) (pc : Nat) (op : Opcode) :
    pc < endOf code pc op := by
  have hstart := lt_switchStart pc
  cases op with
  | tableSwitch | lookupSwitch =>
    simp only [endOf]
    omega
  | plain | immediate | byteOperand | index | branch | increment =>
    exact Nat.lt_of_lt_of_le (Nat.lt_succ_self pc) (Nat.le_add_right _ _)

/-- The decoder accepts what is complete, and reads what stands there. -/
theorem decode_eq_ok_iff {i : Instruction} :
    decode code pc = .ok i ↔ ∃ op, Complete code pc op ∧ i.pc = pc ∧
      i.operation = operationOf code pc op ∧ i.next = endOf code pc op := by
  have hopcode : ∀ {byte op}, Opcode.ofByte? byte = some op ↔
      byte = op.byte := by
    intro byte op
    constructor
    · exact fun h => (Opcode.byte_of_ofByte? h).symm
    · intro h
      rw [h, Opcode.ofByte?_byte]
  -- the table of opcodes is not to be unfolded
  unfold decode
  generalize Opcode.ofByte? = opcodeOf at hopcode ⊢
  cases hbyte : code[pc]? with
  | none =>
    refine iff_of_false (fun h => by cases h) ?_
    rintro ⟨op, hcomplete, -⟩
    cases hbyte.symm.trans hcomplete.byte_eq
  | some byte =>
    have hpc := (Array.getElem?_eq_some_iff.1 hbyte).1
    constructor
    · intro h
      simp only at h
      cases hop : opcodeOf byte with
      | none =>
        rw [hop] at h
        cases h
      | some op =>
        rw [hop] at h
        obtain ⟨⟨o, stop⟩, hread, h⟩ := bind_eq_ok h
        cases h
        obtain ⟨hfits, ho, hstop⟩ := (operationAt_eq_ok_iff hpc op).1 hread
        have hlt := lt_endOf code pc op
        rw [hopcode.1 hop] at hbyte
        refine ⟨op, ⟨hfits, hbyte⟩, rfl, ho, ?_⟩
        simp only [next, len]
        omega
    · rintro ⟨op, hcomplete, hpc', ho, hnext⟩
      have hop : opcodeOf byte = some op :=
        hopcode.2 (Option.some.inj (hbyte.symm.trans hcomplete.byte_eq))
      have hlt := lt_endOf code pc op
      have hbytes : i.operandBytes = endOf code pc op - (pc + 1) := by
        simp only [next, len] at hnext
        omega
      simp only [hop]
      rw [bind_of_ok ((operationAt_eq_ok_iff hpc op).2
        ⟨hcomplete.toFits, rfl, rfl⟩), ← ho, ← hbytes, ← hpc']
      rfl

end Instruction

namespace Code

open Instruction

variable {code : Array UInt8} {pc stop : Nat} {visited : List Nat}

/-! ## Sweeps -/

/-- A sweep from the first position has met the instructions at the positions
`visited` and has come to `stop`. -/
inductive Sweeps (code : Array UInt8) : Nat → List Nat → Nat → Prop where
  | refl (pc : Nat) : Sweeps code pc [] pc
  | step {pc stop : Nat} {i : Instruction} {visited : List Nat} :
      decode code pc = .ok i → Sweeps code i.next visited stop →
      Sweeps code pc (pc :: visited) stop

/-- Positions increase along a sweep. -/
theorem Sweeps.increasing (h : Sweeps code pc visited stop) :
    (visited ++ [stop]).Pairwise (· < ·) ∧
      ∀ position ∈ visited ++ [stop], pc ≤ position := by
  induction h with
  | refl pc =>
    refine ⟨List.pairwise_singleton _ _, fun position hposition => ?_⟩
    exact Nat.le_of_eq (List.mem_singleton.1 hposition).symm
  | @step pc stop i visited hdecode _ ih =>
    obtain ⟨hincreasing, hle⟩ := ih
    have hlt := i.pc_lt_next
    rw [(decode_ok hdecode).1] at hlt
    have hbehind : ∀ position ∈ visited ++ [stop], pc < position :=
      fun position hposition => Nat.lt_of_lt_of_le hlt (hle position hposition)
    rw [List.cons_append]
    refine ⟨List.pairwise_cons.2 ⟨hbehind, hincreasing⟩, ?_⟩
    intro position hposition
    rcases List.mem_cons.1 hposition with rfl | hposition
    · exact Nat.le_refl _
    · exact Nat.le_of_lt (hbehind position hposition)

/-- A sweep ends behind the code, or where the first position does not
decode. -/
theorem sweepFrom_ends (code : Array UInt8) (pc : Nat)
    (hpc : pc ≤ code.size) :
    ∃ visited stop, Sweeps code pc visited stop ∧
      (stop = code.size ∧ (∃ instructions,
          sweepFrom code pc = .ok instructions ∧
          instructions.map (·.pc) = visited) ∨
        stop < code.size ∧ ∃ e, decode code stop = .error e ∧
          sweepFrom code pc = .error e) := by
  -- The rest of the code gets shorter with each instruction.
  induction hrest : code.size - pc using Nat.strongRecOn generalizing pc with
  | ind rest ih =>
    rcases Nat.eq_or_lt_of_le hpc with rfl | hlt
    · refine ⟨[], _, .refl _, .inl ⟨rfl, [], ?_, rfl⟩⟩
      rw [sweepFrom, if_neg (Nat.lt_irrefl _)]
    · rw [sweepFrom, if_pos hlt]
      cases hdecode : decode code pc with
      | error e => exact ⟨[], pc, .refl pc, .inr ⟨hlt, e, hdecode, rfl⟩⟩
      | ok i =>
        obtain ⟨rfl, hend, -⟩ := decode_ok hdecode
        have hforward := i.pc_lt_next
        obtain ⟨visited, stop, hsweeps, hstops⟩ :=
          ih (code.size - i.next) (by omega) i.next hend rfl
        refine ⟨i.pc :: visited, stop, .step hdecode hsweeps, ?_⟩
        rcases hstops with ⟨hstop, is, hresult, hvisited⟩ |
          ⟨hstop, e, herror, hresult⟩
        · refine .inl ⟨hstop, i :: is, bind_of_ok hresult, ?_⟩
          rw [List.map_cons, hvisited]
        · refine .inr ⟨hstop, e, herror, ?_⟩
          have hresult' : sweepFrom code (i.pc + i.len) = .error e := hresult
          simp only [hresult']
          rfl

end Code

/-- The decoder accepts exactly its grammar: what it accepts is complete, and
it reads the operands that stand there.  An accepted instruction is not
empty, ends inside the code, and leads into the code only.  The sweep of a
listing visits increasing positions from the start of the code, and ends
exactly at the end of the code or at the first position that does not
decode. -/
theorem decode_grammar (code : Array UInt8) :
    (∀ (pc : Nat) (i : Instruction), Instruction.decode code pc = .ok i ↔
      ∃ op, Instruction.Complete code pc op ∧ i.pc = pc ∧
        i.operation = Instruction.operationOf code pc op ∧
        i.next = Instruction.endOf code pc op) ∧
    (∀ (pc : Nat) (i : Instruction), Instruction.decode code pc = .ok i →
      1 ≤ i.len ∧ pc + i.len ≤ code.size ∧
        ∀ t, i.operation.Leads t → t < code.size) ∧
    ∃ visited stop, Code.Sweeps code 0 visited stop ∧
      (visited ++ [stop]).Pairwise (· < ·) ∧
      (stop = code.size ∧ (∃ instructions : List Instruction,
          instructions.map (·.pc) = visited ∧
          ∀ native, Code.listing code native =
            .ok (instructions.map (Code.line native))) ∨
        stop < code.size ∧ ∃ e, Instruction.decode code stop = .error e ∧
          ∀ native, Code.listing code native = .error e) := by
  refine ⟨fun pc i => Instruction.decode_eq_ok_iff, ?_, ?_⟩
  · intro pc i hdecode
    obtain ⟨rfl, hend, hleads⟩ := Instruction.decode_ok hdecode
    exact ⟨Nat.succ_le_succ (Nat.zero_le _), hend, hleads⟩
  · obtain ⟨visited, stop, hsweeps, hends⟩ :=
      Code.sweepFrom_ends code 0 (Nat.zero_le _)
    refine ⟨visited, stop, hsweeps, hsweeps.increasing.1, ?_⟩
    rcases hends with ⟨hstop, is, hresult, hvisited⟩ |
      ⟨hstop, e, herror, hresult⟩
    · exact .inl ⟨hstop, is, hvisited, fun native => bind_of_ok hresult⟩
    · refine .inr ⟨hstop, e, herror, fun native => ?_⟩
      rw [Code.listing, hresult]
      rfl

/-- A lookup switch of one pair and a return, to which all keys lead. -/
def shortSwitch : Array UInt8 :=
  #[0xab, 0, 0, 0, 0, 0, 0, 20, 0, 0, 0, 1, 255, 255, 255, 255, 0, 0, 0, 20,
    0xb1]

/-- The switch is complete, so it decodes and ends where the return stands. -/
theorem decode_grammar_shortSwitch :
    Instruction.Complete shortSwitch 0 .lookupSwitch ∧
    ∃ i, Instruction.decode shortSwitch 0 = .ok i ∧
      i.operation = .lookupSwitch 20 [(-1, 20)] ∧ i.next = 20 ∧
      i.len ≤ shortSwitch.size := by
  have hcomplete : Instruction.Complete shortSwitch 0 .lookupSwitch := by
    decide +kernel
  have hread : Instruction.operationOf shortSwitch 0 .lookupSwitch =
      .lookupSwitch 20 [(-1, 20)] := by
    decide +kernel
  have hend : Instruction.endOf shortSwitch 0 .lookupSwitch = 20 := by
    decide +kernel
  obtain ⟨haccepts, hinside, -⟩ := decode_grammar shortSwitch
  have hdecode : Instruction.decode shortSwitch 0 = .ok
      ⟨0, Instruction.operationOf shortSwitch 0 .lookupSwitch, 19⟩ :=
    (haccepts 0 _).2 ⟨.lookupSwitch, hcomplete, rfl, rfl, hend.symm⟩
  obtain ⟨-, hlen, -⟩ := hinside 0 _ hdecode
  rw [Nat.zero_add] at hlen
  exact ⟨hcomplete, _, hdecode, hread, rfl, hlen⟩

end SlotVm
