import Mathlib.Data.List.Forall2
import SlotVm.Code.Assembler
import SlotVm.Proofs.Decode
import SlotVm.Proofs.Integers

/-!
# Encoded items decode

`Assembler.Item.encode` writes the bytes of an item and
`Instruction.decode` reads the bytes of an instruction.  The two are separate
code, and this module shows that they agree on every field: what is read
back from the bytes of an item is the operation that the item stands for.

`Instruction.Holds` says that some bytes stand at a position of the code.
* Opcodes and numbers (`Opcode.ofByte?_byte`, `bigEndian_bytesOfWord`).
* One reader at a time: what it reads where its bytes stand (`byteAt_ok`,
  `shortAt_ok`, `wordAt_ok`).
* The sizes of items, and what stands in their way (`Item.encode_gives`).
* Offsets read back.  One of two bytes has been checked for its range, but one
  of four bytes is cut.  Then it leads to its label or out of the code
  (`target_gives`), and never to another place in it.  So a label that is too
  far away (`Far`) is all that can stop the reading of a row of offsets or of
  pairs (`targetsAt_gives`, `pairsAt_gives`).
* One item, with a lemma for each kind (`decodes_branch`, `tableSwitch_gives`,
  `lookupSwitch_gives`).
-/

namespace SlotVm

/-! ## Opcodes -/

theorem PlainOp.mem_all (op : PlainOp) : op ∈ all := by
  cases op with
  | pushInt n => revert n; decide
  | pushFloat n => revert n; decide
  | load tag slot => cases tag <;> revert slot <;> decide
  | store tag slot => cases tag <;> revert slot <;> decide
  | arrayLoad element => cases element <;> decide
  | arrayStore element => cases element <;> decide
  | intBinary op => cases op <;> decide
  | floatBinary op => cases op <;> decide
  | narrow kind => cases kind <;> decide
  | returnValue tag => cases tag <;> decide
  | _ => decide

theorem ByteOp.mem_all (op : ByteOp) : op ∈ all := by
  cases op with
  | load tag => cases tag <;> decide
  | store tag => cases tag <;> decide
  | _ => decide

theorem IndexOp.mem_all (op : IndexOp) : op ∈ all := by
  cases op with
  | invoke kind => cases kind <;> decide
  | _ => decide

theorem BranchOp.mem_all (op : BranchOp) : op ∈ all := by
  cases op with
  | ifInt c => cases c <;> decide
  | ifIntPair c => cases c <;> decide
  | ifRefPair same => cases same <;> decide
  | goto => decide
  | ifNull null => cases null <;> decide

namespace Opcode

/-- The list of all opcodes leaves none out. -/
theorem mem_all (op : Opcode) : op ∈ all := by
  unfold all
  cases op with
  | plain op =>
    simp only [List.mem_flatten]
    exact ⟨_, .head _, List.mem_map_of_mem op.mem_all⟩
  | immediate op => cases op <;> simp
  | byteOperand op => simp [op.mem_all]
  | index op => simp [op.mem_all]
  | branch op => simp [op.mem_all]
  | increment => simp
  | tableSwitch => simp
  | lookupSwitch => simp

/-- No two opcodes have one encoding. -/
theorem find?_byte : ∀ op ∈ all, all.find? (·.byte == op.byte) = some op := by
  decide +kernel

/-- The encoding of an opcode decodes. -/
theorem ofByte?_byte (op : Opcode) : ofByte? op.byte = some op := by
  rw [ofByte?_eq_find?]
  exact find?_byte op op.mem_all

end Opcode

/-! ## Numbers -/

@[simp] theorem length_bytesOfWord (n : UInt32) :
    (bytesOfWord n).length = 4 := rfl

@[simp] theorem length_bytesOfInt (n : Int32) :
    (bytesOfInt n).length = 4 := rfl

theorem bigEndian_bytesOfShort (n : UInt16) :
    bigEndian (bytesOfShort n) = n.toNat := by
  have hn := n.toNat_lt
  simp only [bigEndian, bytesOfShort, List.foldl_cons, List.foldl_nil,
    UInt8.toNat_ofNat', Nat.shiftRight_eq_div_pow]
  omega

theorem bigEndian_bytesOfWord (n : UInt32) :
    bigEndian (bytesOfWord n) = n.toNat := by
  have hn := n.toNat_lt
  simp only [bigEndian, bytesOfWord, List.foldl_cons, List.foldl_nil,
    UInt8.toNat_ofNat', Nat.shiftRight_eq_div_pow]
  omega

/-- A distance that fits two bytes is kept. -/
theorem toInt_ofNat_of_short {n : Int} (hlo : -32768 ≤ n)
    (hhi : n ≤ 32767) :
    (UInt16.ofNat (n % 65536).toNat).toInt16.toInt = n := by
  have hn : n.bmod 65536 = n := Int.bmod_eq_of_le (by omega) (by omega)
  rw [← Int16.toInt_toBitVec, UInt16.toBitVec_toInt16,
    UInt16.toBitVec_ofNat', BitVec.toInt_ofNat',
    Int.toNat_of_nonneg (by omega)]
  exact (Int.emod_bmod ..).trans hn

namespace Instruction

variable {code : Array UInt8} {pc position count : Nat}
variable {xs ys : List UInt8}

/-! ## Bytes in their place -/

/-- The bytes stand at a position of the code. -/
def Holds (code : Array UInt8) (position : Nat) (bytes : List UInt8) : Prop :=
  bytes <+: code.toList.drop position

theorem Holds.left (h : Holds code position (xs ++ ys)) :
    Holds code position xs :=
  (List.prefix_append xs ys).trans h

theorem Holds.right (h : Holds code position (xs ++ ys)) :
    Holds code (position + xs.length) ys := by
  obtain ⟨rest, hrest⟩ := h
  refine ⟨rest, ?_⟩
  rw [← List.drop_drop, ← hrest, List.append_assoc, List.drop_left]

theorem Holds.tail {b : UInt8} (h : Holds code position (b :: xs)) :
    Holds code (position + 1) xs := by
  rw [← List.singleton_append] at h
  exact h.right

/-- Bytes that stand in the code end inside it. -/
theorem Holds.end_le (h : Holds code position xs) (hpos : 0 < xs.length) :
    position + xs.length ≤ code.size := by
  have hlength := List.IsPrefix.length_le h
  have hsize : code.toList.length = code.size := Array.length_toList
  rw [List.length_drop, hsize] at hlength
  omega

theorem Holds.getElem? {b : UInt8} (h : Holds code position (b :: xs)) :
    code[position]? = some b := by
  obtain ⟨rest, hrest⟩ := h
  rw [← Array.getElem?_toList, ← Nat.add_zero position, ← List.getElem?_drop,
    ← hrest]
  rfl

theorem Holds.bytesAt (h : Holds code position xs) (hcount : xs.length = count)
    (hpos : 0 < count) : bytesAt code pc position count = .ok xs := by
  subst hcount
  have htake := List.prefix_iff_eq_take.1 h
  rw [Instruction.bytesAt, if_pos (h.end_le hpos), Array.toList_extract,
    List.extract_eq_take_drop, Nat.add_sub_cancel_left, ← htake]

/-! ## Readers -/

theorem byteAt_ok {b : UInt8} (h : Holds code position (b :: xs)) :
    byteAt code pc position = .ok b := by
  rw [← List.singleton_append] at h
  have hbytes : bytesAt code pc position 1 = .ok [b] :=
    h.left.bytesAt rfl (by decide)
  rw [byteAt, hbytes]
  simp [bigEndian, bind, Except.bind, pure, Except.pure]

theorem shortAt_ok {n : UInt16} (h : Holds code position (bytesOfShort n)) :
    shortAt code pc position = .ok n := by
  have hbytes : bytesAt code pc position 2 = .ok (bytesOfShort n) :=
    h.bytesAt rfl (by decide)
  rw [shortAt, hbytes]
  simp only [bind, Except.bind, pure, Except.pure]
  rw [bigEndian_bytesOfShort, UInt16.ofNat_toNat]

theorem wordAt_ok {n : Int32} (h : Holds code position (bytesOfInt n)) :
    wordAt code pc position = .ok n := by
  have hbytes : bytesAt code pc position 4 = .ok (bytesOfInt n) :=
    h.bytesAt rfl (by decide)
  rw [wordAt, hbytes]
  simp only [bind, Except.bind, pure, Except.pure, bytesOfInt]
  rw [bigEndian_bytesOfWord]
  congr 1
  apply Int32.toBitVec_inj.1
  simp

/-- The position that the distance to a position inside the code leads
to. -/
theorem target_ok {q : Nat} {n : Int} (hn : n = (q : Int) - pc)
    (hq : q < code.size) : target code pc n = .ok q := by
  have hposition : (pc : Int) + n = q := by omega
  unfold target
  simp only [hposition]
  rw [if_pos (by omega), Int.toNat_natCast]

end Instruction

namespace Assembler

open Instruction

variable {labels : Array (Option Nat)} {label position q : Nat}
variable {code : Array UInt8} {pc : Nat}

/-! ## Labels -/

/-- The label is bound to a position. -/
def Binds (labels : Array (Option Nat)) (label q : Nat) : Prop :=
  labels[label]? = some (some q)

theorem Binds.unique {q' : Nat} (h : Binds labels label q)
    (h' : Binds labels label q') : q = q' :=
  Option.some.inj (Option.some.inj (h.symm.trans h'))

/-- A label has an offset if it is bound. -/
theorem offset_gives (labels : Array (Option Nat)) (position label : Nat) :
    Gives (offset labels position label)
      (fun n => ∃ q, Binds labels label q ∧ n = (q : Int) - position)
      (fun _ => ¬ ∃ q, Binds labels label q) := by
  unfold offset Binds
  split
  · rename_i q hlabel
    exact ⟨q, hlabel, rfl⟩
  · rename_i hnone
    intro hq
    obtain ⟨q, hlabel⟩ := hq
    exact hnone q hlabel

theorem wideOffset_gives (labels : Array (Option Nat))
    (position label : Nat) :
    Gives (wideOffset labels position label)
      (fun bytes => ∃ q, Binds labels label q ∧
        bytes = bytesOfInt (Int32.ofInt ((q : Int) - position)))
      (fun _ => ¬ ∃ q, Binds labels label q) := by
  refine (offset_gives labels position label).bind fun n hn => ?_
  obtain ⟨q, hq, rfl⟩ := hn
  exact ⟨q, hq, rfl⟩

/-- The distance between two positions fits a two-byte offset. -/
def InReach (position q : Nat) : Prop :=
  -32768 ≤ (q : Int) - position ∧ (q : Int) - position ≤ 32767

/-- The label is bound within the reach of a two-byte offset. -/
def Near (labels : Array (Option Nat)) (position label : Nat) : Prop :=
  ∃ q, Binds labels label q ∧ InReach position q

theorem shortOffset_gives (labels : Array (Option Nat))
    (position label : Nat) :
    Gives (shortOffset labels position label)
      (fun bytes => Near labels position label ∧ ∃ q, Binds labels label q ∧
        bytes = bytesOfShort
          (UInt16.ofNat (((q : Int) - position) % 65536).toNat))
      (fun _ => ¬ Near labels position label) := by
  have hoffset : Gives (offset labels position label)
      (fun n => ∃ q, Binds labels label q ∧ n = (q : Int) - position)
      (fun _ => ¬ Near labels position label) := by
    apply (offset_gives labels position label).mono (fun _ hn => hn)
    intro _ hnone hnear
    obtain ⟨q, hq, -⟩ := hnear
    exact hnone ⟨q, hq⟩
  refine hoffset.bind fun n hn => ?_
  obtain ⟨q, hq, rfl⟩ := hn
  split
  · rename_i hreach
    exact ⟨⟨q, hq, hreach⟩, q, hq, rfl⟩
  · rename_i hreach
    intro hnear
    obtain ⟨q', hq', hreach'⟩ := hnear
    rw [hq'.unique hq] at hreach'
    exact hreach hreach'

/-! ## Items -/

/-- The labels that an item names are bound, that of a branch within its
reach. -/
def Item.Ready (labels : Array (Option Nat)) (position : Nat) : Item → Prop
  | bytes _ => True
  | branch _ label => Near labels position label
  | tableSwitch _ targets fallback =>
      (∃ q, Binds labels fallback q) ∧
        ∀ label ∈ targets, ∃ q, Binds labels label q
  | lookupSwitch pairs fallback =>
      (∃ q, Binds labels fallback q) ∧
        ∀ pair ∈ pairs, ∃ q, Binds labels pair.2 q

/-- The bytes of a key with the offset behind it. -/
def entryBytes (labels : Array (Option Nat)) (position : Nat)
    (pair : Int32 × Nat) : Except Fault (List UInt8) := do
  let distance ← wideOffset labels position pair.2
  return bytesOfInt pair.1 ++ distance

theorem encode_lookupSwitch (pairs : List (Int32 × Nat)) (fallback : Nat) :
    (Item.lookupSwitch pairs fallback).encode labels position = do
      let otherwise ← wideOffset labels position fallback
      let entries ← pairs.mapM (entryBytes labels position)
      return switchHeader .lookupSwitch position ++ otherwise
        ++ bytesOfWord (UInt32.ofNat pairs.length) ++ entries.flatten := rfl

theorem entryBytes_gives (labels : Array (Option Nat)) (position : Nat)
    (pair : Int32 × Nat) :
    Gives (entryBytes labels position pair)
      (fun bytes => ∃ q, Binds labels pair.2 q ∧
        bytes = bytesOfInt pair.1 ++
          bytesOfInt (Int32.ofInt ((q : Int) - position)))
      (fun _ => ¬ ∃ q, Binds labels pair.2 q) := by
  refine (wideOffset_gives labels position pair.2).bind fun bytes hbytes => ?_
  obtain ⟨q, hq, rfl⟩ := hbytes
  exact ⟨q, hq, rfl⟩

theorem length_wideOffset {bytes : List UInt8}
    (h : wideOffset labels position label = .ok bytes) : bytes.length = 4 := by
  obtain ⟨q, -, rfl⟩ := (wideOffset_gives labels position label).of_ok h
  rfl

theorem length_entryBytes {pair : Int32 × Nat} {bytes : List UInt8}
    (h : entryBytes labels position pair = .ok bytes) : bytes.length = 8 := by
  obtain ⟨q, -, rfl⟩ := (entryBytes_gives labels position pair).of_ok h
  rfl

/-- A row is there if every member of it is. -/
theorem mapM_gives {α β : Type} {f : α → Except Fault β} {P : α → Prop}
    (hf : ∀ x, Gives (f x) (fun _ => P x) (fun _ => ¬ P x)) (xs : List α) :
    Gives (xs.mapM f) (fun _ => ∀ x ∈ xs, P x)
      (fun _ => ¬ ∀ x ∈ xs, P x) := by
  induction xs with
  | nil =>
    intro x hx
    cases hx
  | cons x rest ih =>
    simp only [List.mapM_cons, List.forall_mem_cons]
    refine (hf x).bind_and fun y hx => ?_
    refine ih.bind fun ys hrest => ?_
    exact ⟨hx, hrest⟩

/-- A row of pieces that all have the same width. -/
theorem length_flatten {α : Type} {f : α → Except Fault (List UInt8)}
    {width : Nat} (hf : ∀ x bytes, f x = .ok bytes → bytes.length = width)
    {xs : List α} {pieces : List (List UInt8)}
    (hpieces : xs.mapM f = .ok pieces) :
    pieces.flatten.length = width * xs.length := by
  induction xs generalizing pieces with
  | nil =>
    cases hpieces
    rfl
  | cons x rest ih =>
    rw [List.mapM_cons] at hpieces
    obtain ⟨bytes, hbytes, hpieces⟩ := bind_eq_ok hpieces
    obtain ⟨others, hothers, hpieces⟩ := bind_eq_ok hpieces
    cases hpieces
    rw [List.flatten_cons, List.length_append, hf x bytes hbytes, ih hothers,
      List.length_cons, Nat.mul_succ, Nat.add_comm]

/-- The header of a switch ends where its operands start. -/
theorem length_switchHeader (op : Opcode) (position : Nat) :
    (switchHeader op position).length = switchStart position - position := by
  have hstart := lt_switchStart position
  rw [switchHeader, List.length_cons, length_padding]
  omega

/-- An item has bytes if its labels are bound, and it takes the room that was
kept for it. -/
theorem Item.encode_gives (labels : Array (Option Nat)) (position : Nat)
    (item : Item) :
    Gives (item.encode labels position)
      (fun bytes => item.Ready labels position ∧
        bytes.length = item.size position)
      (fun _ => ¬ item.Ready labels position) := by
  cases item with
  | bytes bytes => exact ⟨trivial, rfl⟩
  | branch op label =>
    refine (shortOffset_gives labels position label).bind fun bytes hbytes => ?_
    obtain ⟨hnear, q, -, rfl⟩ := hbytes
    exact ⟨hnear, rfl⟩
  | tableSwitch low targets fallback =>
    have htargets := mapM_gives (fun label =>
      (wideOffset_gives labels position label).mono
        (fun _ hbytes => hbytes.imp fun _ hq => hq.1) fun _ hnot => hnot)
      targets
    refine (wideOffset_gives labels position fallback).bind_and
      fun otherwise hotherwise => ?_
    obtain ⟨q, hq, rfl⟩ := hotherwise
    refine htargets.with_result.bind fun pieces hpieces => ?_
    obtain ⟨hresult, hall⟩ := hpieces
    have hlength := length_flatten (fun _ _ => length_wideOffset) hresult
    refine ⟨⟨⟨q, hq⟩, hall⟩, ?_⟩
    simp only [List.length_append, length_bytesOfInt, hlength, Item.size]
  | lookupSwitch pairs fallback =>
    have hentries := mapM_gives (fun pair =>
      (entryBytes_gives labels position pair).mono
        (fun _ hbytes => hbytes.imp fun _ hq => hq.1) fun _ hnot => hnot)
      pairs
    rw [encode_lookupSwitch]
    refine (wideOffset_gives labels position fallback).bind_and
      fun otherwise hotherwise => ?_
    obtain ⟨q, hq, rfl⟩ := hotherwise
    refine hentries.with_result.bind fun pieces hpieces => ?_
    obtain ⟨hresult, hall⟩ := hpieces
    have hlength := length_flatten (fun _ _ => length_entryBytes) hresult
    refine ⟨⟨⟨q, hq⟩, hall⟩, ?_⟩
    simp only [List.length_append, length_bytesOfInt, length_bytesOfWord,
      hlength, Item.size]

/-- An item that takes room begins inside the code that has its bytes. -/
theorem Item.start_lt {item : Item} {bytes : List UInt8}
    (hbytes : item.encode labels pc = .ok bytes)
    (hholds : Holds code pc bytes) (hroom : 0 < item.size pc) :
    pc < code.size := by
  rw [← ((Item.encode_gives labels pc item).of_ok hbytes).2] at hroom
  have hend := hholds.end_le hroom
  omega

/-! ## Reading offsets back -/

/-- The offset of a branch leads to where its label is bound. -/
theorem shortOffset_read {bytes : List UInt8}
    (hbytes : shortOffset labels pc label = .ok bytes)
    (hholds : Holds code position bytes)
    (hinside : ∀ q, Binds labels label q → q < code.size) :
    ∃ n q, shortAt code pc position = .ok n ∧
      target code pc n.toInt16.toInt = .ok q ∧ Binds labels label q := by
  obtain ⟨hnear, q, hq, rfl⟩ :=
    (shortOffset_gives labels pc label).of_ok hbytes
  obtain ⟨q', hq', hlo, hhi⟩ := hnear
  obtain rfl := hq.unique hq'
  have hn := toInt_ofNat_of_short hlo hhi
  exact ⟨_, q, shortAt_ok hholds, target_ok hn (hinside q hq), hq⟩

/-- The distance between two positions fits a four-byte offset. -/
def Spans (position q : Nat) : Prop :=
  -2147483648 ≤ (q : Int) - position ∧ (q : Int) - position ≤ 2147483647

/-- One of the labels is bound too far away for a four-byte offset. -/
def Far (labels : Array (Option Nat)) (position : Nat) (P : Nat → Prop) :
    Prop :=
  ∃ label, P label ∧ ∃ q, Binds labels label q ∧ ¬ Spans position q

theorem Far.imp {P P' : Nat → Prop} (h : Far labels position P)
    (hP : ∀ label, P label → P' label) : Far labels position P' := by
  obtain ⟨label, hlabel, hq⟩ := h
  exact ⟨label, hP label hlabel, hq⟩

/-- No label is bound too far away in code that is short enough. -/
theorem not_far (hsmall : code.size < 2147483648) (hpc : pc < code.size)
    {P : Nat → Prop}
    (hinside : ∀ label, P label → ∀ q, Binds labels label q → q < code.size) :
    ¬ Far labels pc P := by
  intro hfar
  obtain ⟨label, hlabel, q, hq, hspans⟩ := hfar
  have hlt := hinside label hlabel q hq
  unfold Spans at hspans
  omega

section Offsets

variable (hsize : code.size ≤ 4294967296) (hpc : pc < code.size)
include hsize hpc

/-- An offset that is cut to four bytes leads to its target or out of the
code. -/
theorem target_gives (hq : q < code.size) :
    Gives (target code pc (Int32.ofInt ((q : Int) - pc)).toInt) (· = q)
      (fun _ => ¬ Spans pc q) := by
  by_cases hspans : Spans pc q
  · have hn : (Int32.ofInt ((q : Int) - pc)).toInt = q - pc :=
      Int32.toInt_ofInt_of_le hspans.1 (by have := hspans.2; omega)
    rw [target_ok hn hq]
    exact rfl
  · have hlo := (Int32.ofInt ((q : Int) - pc)).le_toInt
    have hhi := (Int32.ofInt ((q : Int) - pc)).toInt_lt
    have hmod : (Int32.ofInt ((q : Int) - pc)).toInt % 4294967296 =
        ((q : Int) - pc) % 4294967296 := by
      rw [Int32.toInt_ofInt]
      exact Int.bmod_emod
    unfold target
    generalize (Int32.ofInt ((q : Int) - pc)).toInt = n at hlo hhi hmod ⊢
    have houtside : ¬ (0 ≤ (pc : Int) + n ∧ (pc : Int) + n < code.size) := by
      unfold Spans at hspans
      omega
    simp only [if_neg houtside]
    exact hspans

/-- The offset of a label leads to where the label is bound. -/
theorem wideOffset_read {bytes : List UInt8}
    (hbytes : wideOffset labels pc label = .ok bytes)
    (hholds : Holds code position bytes)
    (hinside : ∀ q, Binds labels label q → q < code.size) :
    ∃ n, wordAt code pc position = .ok n ∧
      Gives (target code pc n.toInt) (Binds labels label)
        (fun _ => Far labels pc (· = label)) := by
  obtain ⟨q, hq, rfl⟩ := (wideOffset_gives labels pc label).of_ok hbytes
  refine ⟨_, wordAt_ok hholds, ?_⟩
  apply (target_gives hsize hpc (hinside q hq)).mono
  · rintro _ rfl
    exact hq
  · exact fun _ hspans => ⟨label, rfl, q, hq, hspans⟩

/-- A row of offsets leads to where the labels are bound. -/
theorem targetsAt_gives {targets : List Nat} {pieces : List (List UInt8)}
    (hpieces : targets.mapM (wideOffset labels pc) = .ok pieces)
    (hholds : Holds code position pieces.flatten)
    (hinside : ∀ label ∈ targets, ∀ q, Binds labels label q → q < code.size) :
    Gives (targetsAt code pc targets.length position)
      (List.Forall₂ (Binds labels) targets)
      (fun _ => Far labels pc (· ∈ targets)) := by
  induction targets generalizing pieces position with
  | nil => exact .nil
  | cons label rest ih =>
    rw [List.mapM_cons] at hpieces
    obtain ⟨bytes, hbytes, hpieces⟩ := bind_eq_ok hpieces
    obtain ⟨others, hothers, hpieces⟩ := bind_eq_ok hpieces
    cases hpieces
    rw [List.flatten_cons] at hholds
    have hwidth := length_wideOffset hbytes
    have hbehind := hholds.right
    rw [hwidth] at hbehind
    obtain ⟨n, hword, htarget⟩ := wideOffset_read hsize hpc hbytes
      hholds.left (hinside label List.mem_cons_self)
    have hrest := ih hothers hbehind
      fun l hl => hinside l (List.mem_cons_of_mem _ hl)
    rw [List.length_cons, targetsAt, bind_of_ok hword]
    refine (htarget.mono (fun _ h => h) fun _ hfar => hfar.imp ?_).bind ?_
    · rintro _ rfl
      exact List.mem_cons_self
    · intro q hq
      refine (hrest.mono (fun _ h => h) fun _ hfar => hfar.imp ?_).bind ?_
      · exact fun _ => List.mem_cons_of_mem _
      · exact fun found hall => .cons hq hall

/-- A row of pairs reads back with the keys, and with where the labels are
bound. -/
theorem pairsAt_gives {pairs : List (Int32 × Nat)} {pieces : List (List UInt8)}
    (hpieces : pairs.mapM (entryBytes labels pc) = .ok pieces)
    (hholds : Holds code position pieces.flatten)
    (hinside : ∀ pair ∈ pairs, ∀ q, Binds labels pair.2 q → q < code.size) :
    Gives (pairsAt code pc pairs.length position)
      (List.Forall₂ (fun pair (key, q) => pair.1 = key ∧ Binds labels pair.2 q)
        pairs)
      (fun _ => Far labels pc (· ∈ pairs.map (·.2))) := by
  induction pairs generalizing pieces position with
  | nil => exact .nil
  | cons pair rest ih =>
    rw [List.mapM_cons] at hpieces
    obtain ⟨bytes, hbytes, hpieces⟩ := bind_eq_ok hpieces
    obtain ⟨others, hothers, hpieces⟩ := bind_eq_ok hpieces
    cases hpieces
    rw [List.flatten_cons] at hholds
    have hwidth := length_entryBytes hbytes
    have hbehind := hholds.right
    rw [hwidth] at hbehind
    obtain ⟨distance, hdistance, hbytes⟩ := bind_eq_ok hbytes
    cases hbytes
    have hkey : wordAt code pc position = .ok pair.1 :=
      wordAt_ok hholds.left.left
    obtain ⟨n, hword, htarget⟩ := wideOffset_read hsize hpc hdistance
      hholds.left.right (hinside pair List.mem_cons_self)
    rw [length_bytesOfInt] at hword
    have hrest := ih hothers hbehind
      fun l hl => hinside l (List.mem_cons_of_mem _ hl)
    rw [List.length_cons, pairsAt, bind_of_ok hkey, bind_of_ok hword]
    refine (htarget.mono (fun _ h => h) fun _ hfar => hfar.imp ?_).bind ?_
    · rintro _ rfl
      exact List.mem_cons_self
    · intro q hq
      refine (hrest.mono (fun _ h => h) fun _ hfar => hfar.imp ?_).bind ?_
      · exact fun _ => List.mem_cons_of_mem _
      · exact fun found hall => .cons ⟨rfl, hq⟩ hall

end Offsets

/-! ## Decoding items -/

/-- The instruction at `pc` is one of the given operations, and the next one
is at `stop`. -/
def Decodes (code : Array UInt8) (pc stop : Nat) (P : Operation → Prop) :
    Prop :=
  ∃ i, decode code pc = .ok i ∧ i.pc = pc ∧ i.next = stop ∧ P i.operation

/-- Decoding finds an instruction if nothing stands in its way. -/
theorem decodes_of_gives {stop : Nat} {P : Operation → Prop}
    {fail : Fault → Prop}
    (h : Gives (decode code pc)
      (fun i => i.pc = pc ∧ i.next = stop ∧ P i.operation) fail)
    (hfail : ∀ e, ¬ fail e) : Decodes code pc stop P := by
  cases hdecode : decode code pc with
  | ok i => exact ⟨i, hdecode, h.of_ok hdecode⟩
  | error e => exact absurd (h.of_error hdecode) (hfail e)

theorem Decodes.imp {stop : Nat} {P P' : Operation → Prop}
    (h : Decodes code pc stop P) (hP : ∀ o, P o → P' o) :
    Decodes code pc stop P' := by
  obtain ⟨i, hdecode, hpc, hnext, ho⟩ := h
  exact ⟨i, hdecode, hpc, hnext, hP _ ho⟩

/-- What can be read of the operands of an opcode is what decoding finds. -/
theorem decode_gives {op : Opcode} {rest : List UInt8} {stop : Nat}
    {P : Operation → Prop} {fail : Fault → Prop}
    (hholds : Holds code pc (op.byte :: rest)) (hstop : pc < stop)
    (hread : Gives (operationAt code pc op) (fun r => r.2 = stop ∧ P r.1)
      fail) :
    Gives (decode code pc)
      (fun i => i.pc = pc ∧ i.next = stop ∧ P i.operation) fail := by
  have hopcode := Opcode.ofByte?_byte op
  unfold decode
  -- the table of opcodes is not to be unfolded
  generalize Opcode.ofByte? = opcodeOf at hopcode ⊢
  rw [hholds.getElem?]
  simp only [hopcode]
  refine hread.bind ?_
  intro r hr
  obtain ⟨rfl, ho⟩ := hr
  refine ⟨rfl, ?_, ho⟩
  simp only [next, len]
  omega

/-- An opcode with operands that can be read. -/
theorem decodes_of_operation {op : Opcode} {rest : List UInt8} {stop : Nat}
    {o : Operation} {P : Operation → Prop}
    (hholds : Holds code pc (op.byte :: rest)) (hstop : pc < stop)
    (hread : operationAt code pc op = .ok (o, stop)) (ho : P o) :
    Decodes code pc stop P := by
  have hgives : Gives (operationAt code pc op)
      (fun r => r.2 = stop ∧ P r.1) (fun _ => False) := by
    rw [hread]
    exact ⟨rfl, ho⟩
  exact decodes_of_gives (decode_gives hholds hstop hgives) fun _ h => h

/-- An opcode with a two-byte operand. -/
theorem decodes_index {op : IndexOp} {operand : UInt16}
    (hholds : Holds code pc ((Opcode.index op).byte :: bytesOfShort operand)) :
    Decodes code pc (pc + 3) (.index op operand = ·) := by
  apply decodes_of_operation hholds (by omega) ?_ rfl
  rw [operationAt, bind_of_ok (shortAt_ok hholds.tail)]
  rfl

/-- An opcode with a signed byte. -/
theorem decodes_immediateByte {operand : UInt8}
    (hholds : Holds code pc [(Opcode.immediate .byte).byte, operand]) :
    Decodes code pc (pc + 2) (.immediate .byte operand.toInt8.toInt32 = ·) := by
  apply decodes_of_operation hholds (by omega) ?_ rfl
  rw [operationAt, bind_of_ok (byteAt_ok hholds.tail)]
  rfl

/-- An opcode with a signed number of two bytes. -/
theorem decodes_immediateShort {operand : UInt16}
    (hholds : Holds code pc
      ((Opcode.immediate .short).byte :: bytesOfShort operand)) :
    Decodes code pc (pc + 3)
      (.immediate .short operand.toInt16.toInt32 = ·) := by
  apply decodes_of_operation hholds (by omega) ?_ rfl
  rw [operationAt, bind_of_ok (shortAt_ok hholds.tail)]
  rfl

/-- A branch decodes to a branch that leads to where its label is bound. -/
theorem decodes_branch {op : BranchOp} {bytes : List UInt8}
    (hbytes : (Item.branch (.branch op) label).encode labels pc = .ok bytes)
    (hholds : Holds code pc bytes)
    (hinside : ∀ q, Binds labels label q → q < code.size) :
    Decodes code pc (pc + 3) fun o =>
      ∃ q, Binds labels label q ∧ o = .branch op q := by
  obtain ⟨distance, hdistance, hbytes⟩ := bind_eq_ok hbytes
  cases hbytes
  obtain ⟨n, q, hshort, htarget, hq⟩ :=
    shortOffset_read hdistance hholds.tail hinside
  apply decodes_of_operation hholds (by omega) ?_ ⟨q, hq, rfl⟩
  rw [operationAt, bind_of_ok hshort, bind_of_ok htarget]
  rfl

/-- The keys of a table do not wrap around. -/
theorem toInt_add_ofNat {low : Int32} {n : Nat}
    (hfits : low.toInt + n ≤ 2147483647) :
    (low + Int32.ofNat n).toInt = low.toInt + n := by
  have hlow := low.le_toInt
  have heq : low + Int32.ofNat n = Int32.ofInt (low.toInt + n) := by
    rw [Int32.ofInt_add, Int32.ofInt_toInt, Int32.ofInt_eq_ofNat]
  rw [heq]
  exact Int32.toInt_ofInt_of_le (by omega) (by omega)

/-- The bounds of a table give the number of its entries. -/
theorem tableBounds {low : Int32} {n : Nat} (hn : 0 < n)
    (hfits : low.toInt + n ≤ 2147483647) :
    ¬ low + Int32.ofNat n - 1 < low ∧
      ((low + Int32.ofNat n - 1).toInt - low.toInt).toNat + 1 = n := by
  obtain ⟨last, rfl⟩ := Nat.exists_eq_add_one.2 hn
  have hhigh : low + Int32.ofNat (last + 1) - 1 = low + Int32.ofNat last := by
    rw [Int32.ofNat_add, ← Int32.add_assoc]
    exact Int32.add_sub_cancel ..
  rw [Int32.lt_iff_toInt_lt, hhigh, toInt_add_ofNat (by omega)]
  omega

/-- A table switch decodes to the table of where its labels are bound, unless
one of them is too far away. -/
theorem tableSwitch_gives (hsize : code.size ≤ 4294967296) {low : Int32}
    {targets : List Nat} {fallback : Nat} {bytes : List UInt8}
    (hne : 0 < targets.length)
    (hfits : low.toInt + targets.length ≤ 2147483647)
    (hbytes : (Item.tableSwitch low targets fallback).encode labels pc =
      .ok bytes)
    (hholds : Holds code pc bytes)
    (hinside : ∀ label, label = fallback ∨ label ∈ targets →
      ∀ q, Binds labels label q → q < code.size) :
    Gives (decode code pc)
      (fun i => i.pc = pc ∧ i.next = pc + bytes.length ∧
        ∃ q found, Binds labels fallback q ∧
          List.Forall₂ (Binds labels) targets found ∧
          i.operation = .tableSwitch q low found)
      (fun _ => Far labels pc fun label =>
        label = fallback ∨ label ∈ targets) := by
  obtain ⟨otherwise, hotherwise, hbytes⟩ := bind_eq_ok hbytes
  obtain ⟨pieces, hpieces, hbytes⟩ := bind_eq_ok hbytes
  have hwidth := length_wideOffset hotherwise
  have hlength := length_flatten (fun _ _ => length_wideOffset) hpieces
  have hstart := lt_switchStart pc
  cases hbytes
  have hend := hholds.right.end_le (by omega)
  have hfallback := hholds.left.left.left.right
  have hlow := hholds.left.left.right
  have hhigh := hholds.left.right
  have htable := hholds.right
  simp only [List.length_append, length_switchHeader, length_bytesOfInt,
    hwidth, hlength] at hend hfallback hlow hhigh htable ⊢
  have hpc : pc + (switchStart pc - pc) = switchStart pc := by omega
  simp only [← Nat.add_assoc, hpc] at hend hfallback hlow hhigh htable ⊢
  obtain ⟨n, hword, htarget⟩ := wideOffset_read hsize (by omega)
    hotherwise hfallback (hinside fallback (.inl rfl))
  have hfound := targetsAt_gives hsize (by omega) hpieces htable
    fun label hlabel => hinside label (.inr hlabel)
  obtain ⟨horder, hcount⟩ := tableBounds hne hfits
  apply decode_gives (P := fun o => ∃ q found, Binds labels fallback q ∧
    List.Forall₂ (Binds labels) targets found ∧ o = .tableSwitch q low found)
    hholds.left.left.left.left (by omega)
  have hroom : ¬ code.size / 4 < targets.length := by omega
  rw [operationAt, tableSwitchAt, clearBits_eq, bind_of_ok hword,
    bind_of_ok (wordAt_ok hlow), bind_of_ok (wordAt_ok hhigh)]
  simp only [if_neg horder, hcount, if_neg hroom]
  refine (htarget.mono (fun _ h => h) fun _ hfar => hfar.imp ?_).bind ?_
  · exact fun _ => .inl
  · intro q hq
    refine (hfound.mono (fun _ h => h) fun _ hfar => hfar.imp ?_).bind ?_
    · exact fun _ => .inr
    · exact fun found hall => ⟨rfl, q, found, hq, hall, rfl⟩

theorem decodes_tableSwitch (hsmall : code.size < 2147483648) {low : Int32}
    {targets : List Nat} {fallback : Nat} {bytes : List UInt8}
    (hne : 0 < targets.length)
    (hfits : low.toInt + targets.length ≤ 2147483647)
    (hbytes : (Item.tableSwitch low targets fallback).encode labels pc =
      .ok bytes)
    (hholds : Holds code pc bytes)
    (hinside : ∀ label, label = fallback ∨ label ∈ targets →
      ∀ q, Binds labels label q → q < code.size) :
    Decodes code pc (pc + bytes.length) fun o =>
      ∃ q found, Binds labels fallback q ∧
        List.Forall₂ (Binds labels) targets found ∧
        o = .tableSwitch q low found := by
  have hpc := Item.start_lt hbytes hholds (by rw [Item.size]; omega)
  have hgives := tableSwitch_gives (by omega) hne hfits hbytes hholds hinside
  exact decodes_of_gives hgives fun _ => not_far hsmall hpc hinside

/-- A lookup switch decodes to its keys with where their labels are bound,
unless one of them is too far away. -/
theorem lookupSwitch_gives (hsize : code.size ≤ 4294967296)
    {pairs : List (Int32 × Nat)} {fallback : Nat} {bytes : List UInt8}
    (hbytes : (Item.lookupSwitch pairs fallback).encode labels pc =
      .ok bytes)
    (hholds : Holds code pc bytes)
    (hinside : ∀ label, label = fallback ∨ label ∈ pairs.map (·.2) →
      ∀ q, Binds labels label q → q < code.size) :
    Gives (decode code pc)
      (fun i => i.pc = pc ∧ i.next = pc + bytes.length ∧
        ∃ q found, Binds labels fallback q ∧
          List.Forall₂
            (fun pair (key, q) => pair.1 = key ∧ Binds labels pair.2 q)
            pairs found ∧
          i.operation = .lookupSwitch q found)
      (fun _ => Far labels pc fun label =>
        label = fallback ∨ label ∈ pairs.map (·.2)) := by
  rw [encode_lookupSwitch] at hbytes
  obtain ⟨otherwise, hotherwise, hbytes⟩ := bind_eq_ok hbytes
  obtain ⟨pieces, hpieces, hbytes⟩ := bind_eq_ok hbytes
  have hwidth := length_wideOffset hotherwise
  have hlength := length_flatten (fun _ _ => length_entryBytes) hpieces
  have hstart := lt_switchStart pc
  cases hbytes
  have hend := hholds.end_le (by simp [switchHeader])
  have hfallback := hholds.left.left.right
  have hcount := hholds.left.right
  have htable := hholds.right
  simp only [List.length_append, length_switchHeader, length_bytesOfWord,
    hwidth, hlength] at hend hfallback hcount htable ⊢
  have hpc : pc + (switchStart pc - pc) = switchStart pc := by omega
  simp only [← Nat.add_assoc, hpc] at hend hfallback hcount htable ⊢
  obtain ⟨n, hword, htarget⟩ := wideOffset_read hsize (by omega)
    hotherwise hfallback (hinside fallback (.inl rfl))
  have hfound := pairsAt_gives hsize (by omega) hpieces htable
    fun pair hpair => hinside pair.2 (.inr (List.mem_map_of_mem hpair))
  have hnumber : UInt32.ofNat pairs.length =
      (Int32.ofNat pairs.length).toUInt32 := rfl
  have hn : (Int32.ofNat pairs.length).toInt = pairs.length :=
    toInt_ofNat_of_small (by omega)
  rw [hnumber] at hcount
  apply decode_gives (P := fun o => ∃ q found, Binds labels fallback q ∧
    List.Forall₂ (fun pair (key, q) => pair.1 = key ∧ Binds labels pair.2 q)
      pairs found ∧ o = .lookupSwitch q found)
    hholds.left.left.left (by omega)
  have hroom : ¬ (Int32.ofNat pairs.length < 0 ∨
      ((code.size / 8 : Nat) : Int) < (pairs.length : Int)) := by
    have hzero : (0 : Int32).toInt = 0 := rfl
    rw [Int32.lt_iff_toInt_lt, hn, hzero]
    omega
  rw [operationAt, lookupSwitchAt, clearBits_eq, bind_of_ok hword,
    bind_of_ok (wordAt_ok hcount)]
  simp only [hn, if_neg hroom, Int.toNat_natCast]
  refine (htarget.mono (fun _ h => h) fun _ hfar => hfar.imp ?_).bind ?_
  · exact fun _ => .inl
  · intro q hq
    refine (hfound.mono (fun _ h => h) fun _ hfar => hfar.imp ?_).bind ?_
    · exact fun _ => .inr
    · exact fun found hall => ⟨rfl, q, found, hq, hall, rfl⟩

theorem decodes_lookupSwitch (hsmall : code.size < 2147483648)
    {pairs : List (Int32 × Nat)} {fallback : Nat} {bytes : List UInt8}
    (hbytes : (Item.lookupSwitch pairs fallback).encode labels pc =
      .ok bytes)
    (hholds : Holds code pc bytes)
    (hinside : ∀ label, label = fallback ∨ label ∈ pairs.map (·.2) →
      ∀ q, Binds labels label q → q < code.size) :
    Decodes code pc (pc + bytes.length) fun o =>
      ∃ q found, Binds labels fallback q ∧
        List.Forall₂
          (fun pair (key, q) => pair.1 = key ∧ Binds labels pair.2 q)
          pairs found ∧
        o = .lookupSwitch q found := by
  have hpc := Item.start_lt hbytes hholds (by rw [Item.size]; omega)
  have hgives := lookupSwitch_gives (by omega) hbytes hholds hinside
  exact decodes_of_gives hgives fun _ => not_far hsmall hpc hinside

end Assembler

end SlotVm
