import SlotVm.Code.Listing
import SlotVm.Proofs.Encode
import SlotVm.Proofs.StableSort

/-!
# Assembled code decodes to what was written

A method is written as a list of `Directive`s, one for each call of the
assembler.  This module says when `Assembler.finish` fails, and that
decoding the finished code from its start gives the written instructions in
their order and ends with the code.

Nothing in the statements depends on how the assembler keeps its items.  A
directive stands at the size that the code has before it (`StandsAt`), and a
label is bound where its last `bind` stands (`BoundAt`).  `Emits` is the
operation that a directive asks for, and `Spells` says that instructions lie
end to end and are the ones that a list of directives asks for.

There are four groups of lemmas.

* One directive.  `apply_ok` is what it adds to the assembler, and
  `Fits.decodes` what its bytes decode to.
* Places.  `mem_places` ties the items of the assembler to the directives,
  and `binds_of_assembleFrom` the table of labels to `BoundAt`.
* The end of the code.  `finish_gives` says when there is one.
* The sweep over the code (`sweep_spells`), by induction on the directives.
-/

namespace SlotVm

open Assembler Instruction

/-! ## Directives -/

/-- One call of the assembler. -/
inductive Directive where
  | op (op : Opcode)
  | opByte (op : Opcode) (operand : UInt8)
  | opShort (op : Opcode) (operand : UInt16)
  | pushInt (n : Int32)
  | increment (slot : UInt8) (delta : Int8)
  | invoke (op : Opcode) (method : MethodRef)
  /-- Makes the next label. -/
  | label
  | bind (label : Nat)
  | branch (op : Opcode) (label : Nat)
  | tableSwitch (low : Int32) (labels : List Nat) (fallback : Nat)
  | lookupSwitch (pairs : List (Int32 × Nat)) (fallback : Nat)

namespace Directive

/-- Carries out a call. -/
def apply (a : Assembler) : Directive → Except Fault Assembler
  | op o => .ok (a.op o)
  | opByte o operand => .ok (a.opByte o operand)
  | opShort o operand => .ok (a.opShort o operand)
  | pushInt n => .ok (a.pushInt n)
  | increment slot delta => .ok (a.increment slot delta)
  | invoke o method => a.invoke o method
  | label => .ok a.label.2
  | bind l => .ok (a.bind l)
  | branch o l => .ok (a.branch o l)
  | tableSwitch low labels fallback => .ok (a.tableSwitch low labels fallback)
  | lookupSwitch pairs fallback => .ok (a.lookupSwitch pairs fallback)

/-- The opcode has the operand shape of the call, and a number fits its
field. -/
def Fits : Directive → Prop
  | op o => ∃ p, o = .plain p
  | opByte o _ => o = .immediate .byte ∨ ∃ p, o = .byteOperand p
  | opShort o _ => o = .immediate .short ∨ ∃ p, o = .index p
  | pushInt n => -32768 ≤ n ∧ n ≤ 32767
  | invoke o _ => ∃ p, o = .index p
  | branch o _ => o.isBranch = true
  | tableSwitch low labels _ =>
      0 < labels.length ∧ low.toInt + labels.length ≤ 2147483647
  | increment .. | label | bind _ | lookupSwitch .. => True

/-- A branch or a switch uses the label. -/
def Mentions (l : Nat) : Directive → Prop
  | branch _ target => l = target
  | tableSwitch _ labels fallback => l = fallback ∨ l ∈ labels
  | lookupSwitch pairs fallback => l = fallback ∨ l ∈ pairs.map (·.2)
  | _ => False

/-- Only has to do with labels and adds nothing to the code. -/
def Silent : Directive → Prop
  | label | bind _ => True
  | _ => False

end Directive

/-- The same pairs ordered by key, where pairs of one key keep their
order. -/
structure StablySorted (pairs sorted : List (Int32 × Nat)) : Prop where
  ordered : sorted.Pairwise fun x y => x.1 ≤ y.1
  stable : ∀ key, sorted.filter (·.1 == key) = pairs.filter (·.1 == key)

/-- The operation that a directive asks for, where `Bound` says which label
is bound to which position. -/
inductive Emits (layout : RefLayout) (Bound : Nat → Nat → Prop) :
    Directive → Operation → Prop where
  | op (p : PlainOp) : Emits layout Bound (.op (.plain p)) (.plain p)
  | immediateByte (b : UInt8) :
      Emits layout Bound (.opByte (.immediate .byte) b)
        (.immediate .byte b.toInt8.toInt32)
  | byteOperand (p : ByteOp) (b : UInt8) :
      Emits layout Bound (.opByte (.byteOperand p) b) (.byteOperand p b)
  | immediateShort (n : UInt16) :
      Emits layout Bound (.opShort (.immediate .short) n)
        (.immediate .short n.toInt16.toInt32)
  | index (p : IndexOp) (i : UInt16) :
      Emits layout Bound (.opShort (.index p) i) (.index p i)
  /-- One of the seven opcodes for the numbers from -1 on. -/
  | pushRank (n : Int32) (rank : Fin 7) (h : n.toInt = (rank.val : Int) - 1) :
      Emits layout Bound (.pushInt n) (.plain (.pushInt rank))
  | pushByte (n : Int32) (h : -128 ≤ n ∧ n ≤ 127) (h' : ¬ (-1 ≤ n ∧ n ≤ 5)) :
      Emits layout Bound (.pushInt n) (.immediate .byte n)
  | pushShort (n : Int32) (h : ¬ (-128 ≤ n ∧ n ≤ 127)) :
      Emits layout Bound (.pushInt n) (.immediate .short n)
  | increment (slot : UInt8) (delta : Int8) :
      Emits layout Bound (.increment slot delta) (.increment slot delta)
  | invoke (p : IndexOp) (method : MethodRef) (packed : UInt16)
      (h : layout.pack method = .ok packed) :
      Emits layout Bound (.invoke (.index p) method) (.index p packed)
  | branch (p : BranchOp) (l q : Nat) (h : Bound l q) :
      Emits layout Bound (.branch (.branch p) l) (.branch p q)
  | tableSwitch (low : Int32) (labels targets : List Nat) (fallback q : Nat)
      (h : Bound fallback q) (h' : List.Forall₂ Bound labels targets) :
      Emits layout Bound (.tableSwitch low labels fallback)
        (.tableSwitch q low targets)
  | lookupSwitch (pairs sorted cases : List (Int32 × Nat)) (fallback q : Nat)
      (h : Bound fallback q) (hsorted : StablySorted pairs sorted)
      (h' : List.Forall₂ (fun x y => x.1 = y.1 ∧ Bound x.2 y.2) sorted
        cases) :
      Emits layout Bound (.lookupSwitch pairs fallback)
        (.lookupSwitch q cases)

/-- The instructions lie end to end between two positions and are the ones
that the directives ask for, in their order. -/
inductive Spells (layout : RefLayout) (Bound : Nat → Nat → Prop) :
    Nat → List Directive → List Instruction → Nat → Prop where
  | done (pc : Nat) : Spells layout Bound pc [] [] pc
  | silent {pc stop : Nat} {d : Directive} {ds : List Directive}
      {instructions : List Instruction} (h : d.Silent)
      (hrest : Spells layout Bound pc ds instructions stop) :
      Spells layout Bound pc (d :: ds) instructions stop
  | emit {stop : Nat} {d : Directive} {ds : List Directive}
      {i : Instruction} {instructions : List Instruction}
      (h : Emits layout Bound d i.operation)
      (hrest : Spells layout Bound i.next ds instructions stop) :
      Spells layout Bound i.pc (d :: ds) (i :: instructions) stop

/-! ## One directive -/

theorem rank_lt (n : Int32) : (n + 1).toInt.toNat % 7 < 7 :=
  Nat.mod_lt _ (by decide)

/-- The bytes that push a number. -/
def pushBytes (n : Int32) : List UInt8 :=
  if -1 ≤ n ∧ n ≤ 5 then
    [(Opcode.plain (.pushInt ⟨(n + 1).toInt.toNat % 7, rank_lt n⟩)).byte]
  else if -128 ≤ n ∧ n ≤ 127 then
    [(Opcode.immediate .byte).byte, n.toInt8.toUInt8]
  else
    (Opcode.immediate .short).byte :: bytesOfShort n.toInt16.toUInt16

namespace Directive

/-- What a directive adds to the code. -/
def item? (layout : RefLayout) : Directive → Option Item
  | op o => some (.bytes [o.byte])
  | opByte o operand => some (.bytes [o.byte, operand])
  | opShort o operand => some (.bytes (o.byte :: bytesOfShort operand))
  | pushInt n => some (.bytes (pushBytes n))
  | increment slot delta =>
      some (.bytes [Opcode.increment.byte, slot, delta.toUInt8])
  | invoke o method =>
      (layout.pack method).toOption.map fun packed =>
        .bytes (o.byte :: bytesOfShort packed)
  | label | bind _ => none
  | branch o l => some (.branch o l)
  | tableSwitch low labels fallback => some (.tableSwitch low labels fallback)
  | lookupSwitch pairs fallback =>
      some (.lookupSwitch (pairs.mergeSort (·.1 ≤ ·.1)) fallback)

/-- The item with its position, if there is one. -/
def placed (layout : RefLayout) (position : Nat) (d : Directive) :
    List (Nat × Item) :=
  (d.item? layout).toList.map fun item => (position, item)

/-- The position behind a directive. -/
def stop (layout : RefLayout) (position : Nat) (d : Directive) : Nat :=
  match d.item? layout with
  | some item => position + item.size position
  | none => position

end Directive

variable {layout : RefLayout} {labels : Array (Option Nat)}
variable {a b c : Assembler} {d : Directive} {ds : List Directive}
variable {l p q : Nat}

theorem pushInt_eq (a : Assembler) (n : Int32) :
    a.pushInt n = a.add (.bytes (pushBytes n)) := by
  unfold Assembler.pushInt pushBytes
  split
  · rfl
  · split <;> rfl

/-- The labels after a directive. -/
def Directive.labelsAfter (a : Assembler) : Directive → Array (Option Nat)
  | label => a.labels.push none
  | bind l => a.labels.setIfInBounds l (some a.size)
  | _ => a.labels

theorem item?_invoke {o : Opcode} {method : MethodRef} {packed : UInt16}
    (h : layout.pack method = .ok packed) :
    (Directive.invoke o method).item? layout =
      some (.bytes (o.byte :: bytesOfShort packed)) := by
  rw [Directive.item?, h]
  rfl

/-- What a directive does to the assembler. -/
theorem apply_ok (h : d.apply a = .ok b) :
    b.layout = a.layout ∧ b.size = d.stop a.layout a.size ∧
      b.latest.reverse = a.latest.reverse ++ d.placed a.layout a.size ∧
      b.labels = d.labelsAfter a := by
  have hadd : ∀ item, (a.add item).latest.reverse =
      a.latest.reverse ++ [(a.size, item)] :=
    fun item => List.reverse_cons
  have hnone : a.latest.reverse = a.latest.reverse ++ [] :=
    (List.append_nil _).symm
  cases d with
  | label =>
    cases h
    exact ⟨rfl, rfl, hnone, rfl⟩
  | bind l =>
    cases h
    exact ⟨rfl, rfl, hnone, rfl⟩
  | pushInt n =>
    cases h
    rw [pushInt_eq]
    exact ⟨rfl, rfl, hadd _, rfl⟩
  | invoke o method =>
    obtain ⟨packed, hpacked, h⟩ := bind_eq_ok h
    cases h
    rw [Directive.stop, Directive.placed, item?_invoke hpacked]
    exact ⟨rfl, rfl, hadd _, rfl⟩
  | _ =>
    cases h
    exact ⟨rfl, rfl, hadd _, rfl⟩

/-- A directive that adds nothing has to do with labels. -/
theorem silent_of_none (h : d.apply a = .ok b)
    (hitem : d.item? a.layout = none) : d.Silent := by
  cases d with
  | label => trivial
  | bind l => trivial
  | invoke o method =>
    obtain ⟨packed, hpacked, -⟩ := bind_eq_ok h
    rw [item?_invoke hpacked] at hitem
    cases hitem
  | _ => cases hitem

/-! ## Writing -/

/-- Carries out directives one after another. -/
def assembleFrom (a : Assembler) (ds : List Directive) :
    Except Fault Assembler :=
  ds.foldlM Directive.apply a

/-- Some directive has a property, together with the assembler that it is
carried out on and the directives behind it. -/
def Somewhere (a : Assembler) (ds : List Directive)
    (P : Assembler → Directive → List Directive → Prop) : Prop :=
  ∃ before d after b, ds = before ++ d :: after ∧
    assembleFrom a before = .ok b ∧ P b d after

/-- The directive stands where the code has a given size. -/
def StandsAt (a : Assembler) (ds : List Directive) (d : Directive)
    (position : Nat) : Prop :=
  Somewhere a ds fun b d' _ => d' = d ∧ b.size = position

/-- The last directive that binds a label, which must have been made before,
stands at a position. -/
def BoundAt (a : Assembler) (ds : List Directive) (l q : Nat) : Prop :=
  Somewhere a ds fun b d after =>
    d = .bind l ∧ b.size = q ∧ l < b.labels.size ∧ .bind l ∉ after

theorem assembleFrom_cons (h : assembleFrom a (d :: ds) = .ok c) :
    ∃ b, d.apply a = .ok b ∧ assembleFrom b ds = .ok c := by
  rw [assembleFrom, List.foldlM_cons] at h
  exact bind_eq_ok h

/-- The items of directives with their positions, the first of which is
given. -/
def places (layout : RefLayout) : Nat → List Directive → List (Nat × Item)
  | _, [] => []
  | position, d :: ds =>
      d.placed layout position ++ places layout (d.stop layout position) ds

/-- The assembler has the items of what was written. -/
theorem latest_of_assembleFrom (h : assembleFrom a ds = .ok c) :
    c.latest.reverse = a.latest.reverse ++ places a.layout a.size ds := by
  induction ds generalizing a with
  | nil =>
    cases h
    exact (List.append_nil _).symm
  | cons d rest ih =>
    obtain ⟨b, hd, hrest⟩ := assembleFrom_cons h
    obtain ⟨hlayout, hsize, hlatest, -⟩ := apply_ok hd
    rw [ih hrest, hlatest, hlayout, hsize, places, List.append_assoc]

theorem not_somewhere_nil {P : Assembler → Directive → List Directive → Prop} :
    ¬ Somewhere a [] P := by
  intro h
  obtain ⟨before, d, after, b, heq, -⟩ := h
  exact absurd heq.symm (List.append_ne_nil_of_right_ne_nil _ (by simp))

/-- A directive is the first or one of the others. -/
theorem somewhere_cons {P : Assembler → Directive → List Directive → Prop}
    (hd : d.apply a = .ok b) :
    Somewhere a (d :: ds) P ↔ P a d ds ∨ Somewhere b ds P := by
  constructor
  · intro h
    obtain ⟨before, d', after, e, heq, hbefore, hP⟩ := h
    cases before with
    | nil =>
      obtain ⟨rfl, rfl⟩ := List.cons.inj heq
      cases hbefore
      exact .inl hP
    | cons first before =>
      obtain ⟨rfl, rfl⟩ := List.cons.inj heq
      obtain ⟨b', hb', hbefore⟩ := assembleFrom_cons hbefore
      cases hd.symm.trans hb'
      exact .inr ⟨before, d', after, e, rfl, hbefore, hP⟩
  · intro h
    rcases h with hP | ⟨before, d', after, e, rfl, hbefore, hP⟩
    · exact ⟨[], d, ds, a, rfl, rfl, hP⟩
    · refine ⟨d :: before, d', after, e, rfl, ?_, hP⟩
      rw [assembleFrom, List.foldlM_cons]
      exact (bind_of_ok hd).trans hbefore

theorem mem_placed {item : Item} {position : Nat} :
    (p, item) ∈ d.placed layout position ↔
      p = position ∧ d.item? layout = some item := by
  simp [Directive.placed, eq_comm, and_comm]

theorem boundAt_cons (hd : d.apply a = .ok b) :
    BoundAt a (d :: ds) l q ↔
      (d = .bind l ∧ a.size = q ∧ l < a.labels.size ∧ .bind l ∉ ds) ∨
        BoundAt b ds l q :=
  somewhere_cons hd

/-- What is placed is the item of a directive. -/
theorem mem_places {item : Item} (h : assembleFrom a ds = .ok c) :
    (p, item) ∈ places a.layout a.size ds ↔
      ∃ d, StandsAt a ds d p ∧ d.item? a.layout = some item := by
  induction ds generalizing a with
  | nil =>
    constructor
    · intro hmem
      cases hmem
    · intro hd
      obtain ⟨d, hd, -⟩ := hd
      exact absurd hd not_somewhere_nil
  | cons d rest ih =>
    obtain ⟨b, hd, hrest⟩ := assembleFrom_cons h
    obtain ⟨hlayout, hsize, -⟩ := apply_ok hd
    have hih := ih hrest
    rw [hlayout, hsize] at hih
    rw [places, List.mem_append, hih, mem_placed]
    unfold StandsAt
    simp only [somewhere_cons hd]
    constructor
    · intro hmem
      rcases hmem with ⟨rfl, hitem⟩ | ⟨d', hd', hitem⟩
      · exact ⟨d, .inl ⟨rfl, rfl⟩, hitem⟩
      · exact ⟨d', .inr hd', hitem⟩
    · intro hmem
      obtain ⟨d', ⟨rfl, rfl⟩ | hd', hitem⟩ := hmem
      · exact .inl ⟨rfl, hitem⟩
      · exact .inr ⟨d', hd', hitem⟩

/-- What a directive does to the binding of a label. -/
theorem binds_labelsAfter :
    Binds (d.labelsAfter a) l q ↔
      d = .bind l ∧ a.size = q ∧ l < a.labels.size ∨
        d ≠ .bind l ∧ Binds a.labels l q := by
  unfold Binds
  cases d with
  | label =>
    simp only [Directive.labelsAfter, Array.getElem?_push]
    split
    · simp_all
    · simp
  | bind l' =>
    simp only [Directive.labelsAfter, Array.getElem?_setIfInBounds]
    by_cases hl : l' = l
    · subst hl
      by_cases hlt : l' < a.labels.size <;> simp [hlt]
    · simp [hl]
  | _ => simp [Directive.labelsAfter]

/-- A label is bound where its last binding stands. -/
theorem binds_of_assembleFrom (h : assembleFrom a ds = .ok c) :
    Binds c.labels l q ↔
      BoundAt a ds l q ∨ Binds a.labels l q ∧ .bind l ∉ ds := by
  induction ds generalizing a with
  | nil =>
    cases h
    have hnone : ¬ BoundAt c [] l q := not_somewhere_nil
    simp [hnone]
  | cons d rest ih =>
    obtain ⟨b, hd, hrest⟩ := assembleFrom_cons h
    obtain ⟨-, -, -, hlabels⟩ := apply_ok hd
    rw [ih hrest, hlabels, binds_labelsAfter, boundAt_cons hd, List.mem_cons]
    by_cases hbind : d = .bind l
    · by_cases hlast : .bind l ∈ rest
      · simp [hbind, hlast]
      · simp only [hbind, hlast, true_and, ne_eq, not_true, false_and,
          or_false, not_false_iff, and_true, not_true, and_false]
        exact or_comm
    · simp [hbind, Ne.symm hbind]

/-! ## The end of the code -/

/-- A finished method, and what stands in its way. -/
theorem finish_gives (a : Assembler) :
    Gives a.finish
      (fun _ => ∀ x ∈ a.latest.reverse, x.2.Ready a.labels x.1)
      (fun _ => ¬ ∀ x ∈ a.latest.reverse, x.2.Ready a.labels x.1) := by
  have hall := mapM_gives (fun x : Nat × Item =>
    (Item.encode_gives a.labels x.1 x.2).mono (fun _ hx => hx.1)
      fun _ hnot => hnot) a.latest.reverse
  exact hall.bind fun pieces hready => hready

/-- What an item is waiting for, said of its directive. -/
theorem ready_iff {item : Item} (hitem : d.item? layout = some item) :
    item.Ready labels p ↔
      (∀ l, d.Mentions l → ∃ q, Binds labels l q) ∧
        ∀ o l, d = .branch o l → ∀ q, Binds labels l q → InReach p q := by
  cases d with
  | branch o l =>
    cases hitem
    constructor
    · intro hnear
      obtain ⟨q, hq, hreach⟩ := hnear
      refine ⟨?_, ?_⟩
      · intro l' hl
        obtain rfl := hl
        exact ⟨q, hq⟩
      · intro o' l' heq q' hq'
        cases heq
        rwa [hq'.unique hq]
    · intro h
      obtain ⟨hbound, hreach⟩ := h
      obtain ⟨q, hq⟩ := hbound l rfl
      exact ⟨q, hq, hreach o l rfl q hq⟩
  | tableSwitch low targets fallback =>
    cases hitem
    simp [Item.Ready, Directive.Mentions]
  | lookupSwitch pairs fallback =>
    cases hitem
    constructor
    · intro h
      obtain ⟨hfallback, hpairs⟩ := h
      refine ⟨?_, by simp⟩
      intro l hl
      rcases hl with rfl | hl
      · exact hfallback
      · obtain ⟨pair, hpair, rfl⟩ := List.mem_map.1 hl
        exact hpairs pair (List.mem_mergeSort.2 hpair)
    · intro h
      obtain ⟨hbound, -⟩ := h
      refine ⟨hbound fallback (.inl rfl), ?_⟩
      intro pair hpair
      have hmem := List.mem_map_of_mem (f := Prod.snd)
        (List.mem_mergeSort.1 hpair)
      exact hbound pair.2 (.inr hmem)
  | invoke o method =>
    obtain ⟨packed, -, rfl⟩ := Option.map_eq_some_iff.1 hitem
    simp [Item.Ready, Directive.Mentions]
  | label => cases hitem
  | bind l => cases hitem
  | _ =>
    cases hitem
    simp [Item.Ready, Directive.Mentions]

/-- Sorting by key is stable. -/
theorem stablySorted_mergeSort (pairs : List (Int32 × Nat)) :
    StablySorted pairs (pairs.mergeSort (·.1 ≤ ·.1)) := by
  constructor
  · exact pairwise_mergeSort_le Prod.fst pairs
  · intro key
    apply filter_mergeSort Prod.fst pairs
    intro x y hx hy
    simp only [beq_iff_eq] at hx hy
    exact Int32.le_of_eq (hx.trans hy.symm)

/-- Sorting leaves the labels of a switch. -/
theorem mentions_of_sorted {pairs : List (Int32 × Nat)} {fallback : Nat}
    (h : l = fallback ∨ l ∈ (pairs.mergeSort (·.1 ≤ ·.1)).map (·.2)) :
    (Directive.lookupSwitch pairs fallback).Mentions l := by
  apply h.imp_right
  intro hmem
  obtain ⟨pair, hpair, rfl⟩ := List.mem_map.1 hmem
  exact List.mem_map_of_mem (List.mem_mergeSort.1 hpair)

/-! ## Decoding -/

section Decoding

variable {code : Array UInt8} {pc : Nat} {bytes : List UInt8}

/-- A number that fits one byte is kept. -/
theorem toInt32_of_byte {n : Int32} (hn : -128 ≤ n.toInt ∧ n.toInt ≤ 127) :
    n.toInt8.toUInt8.toInt8.toInt32 = n := by
  have hkeep : n.toInt.bmod 256 = n.toInt :=
    Int.bmod_eq_of_le (by omega) (by omega)
  apply Int32.toInt_inj.1
  simpa using hkeep

/-- A number that fits two bytes is kept. -/
theorem toInt32_of_short {n : Int32}
    (hn : -32768 ≤ n.toInt ∧ n.toInt ≤ 32767) :
    n.toInt16.toUInt16.toInt16.toInt32 = n := by
  have hkeep : n.toInt.bmod 65536 = n.toInt :=
    Int.bmod_eq_of_le (by omega) (by omega)
  apply Int32.toInt_inj.1
  simpa using hkeep

/-- The rank of a small number among the opcodes that push one. -/
theorem toInt_eq_rank {n : Int32} (hn : -1 ≤ n.toInt ∧ n.toInt ≤ 5) :
    n.toInt = (((n + 1).toInt.toNat % 7 : Nat) : Int) - 1 := by
  have hone : (1 : Int32).toInt = 1 := rfl
  have hkeep : (n.toInt + 1).bmod 4294967296 = n.toInt + 1 :=
    Int.bmod_eq_of_le (by omega) (by omega)
  have hsucc : (n + 1).toInt = n.toInt + 1 := by
    rw [Int32.toInt_add, hone]
    exact hkeep
  omega

theorem between_iff {n lo hi : Int32} :
    lo ≤ n ∧ n ≤ hi ↔ lo.toInt ≤ n.toInt ∧ n.toInt ≤ hi.toInt := by
  rw [Int32.le_iff_toInt_le, Int32.le_iff_toInt_le]

/-- The bytes that push a number decode to a push of it. -/
theorem decodes_pushBytes (n : Int32) (hfits : -32768 ≤ n ∧ n ≤ 32767)
    (hholds : Holds code pc (pushBytes n)) :
    Decodes code pc (pc + (pushBytes n).length)
      (Emits layout (Binds labels) (.pushInt n)) := by
  unfold pushBytes at hholds ⊢
  by_cases hsmall : -1 ≤ n ∧ n ≤ 5
  · rw [if_pos hsmall] at hholds ⊢
    exact decodes_of_operation hholds (by simp) rfl
      (.pushRank n _ (toInt_eq_rank (between_iff.1 hsmall)))
  · rw [if_neg hsmall] at hholds ⊢
    by_cases hbyte : -128 ≤ n ∧ n ≤ 127
    · rw [if_pos hbyte] at hholds ⊢
      apply (decodes_immediateByte hholds).imp
      intro o ho
      rw [toInt32_of_byte (between_iff.1 hbyte)] at ho
      exact ho ▸ .pushByte n hbyte hsmall
    · rw [if_neg hbyte] at hholds ⊢
      apply (decodes_immediateShort hholds).imp
      intro o ho
      rw [toInt32_of_short (between_iff.1 hfits)] at ho
      exact ho ▸ .pushShort n hbyte

/-- The bytes of a directive decode to the operation that it asks for. -/
theorem Directive.Fits.decodes {item : Item} (hfits : d.Fits)
    (hitem : d.item? layout = some item)
    (hbytes : item.encode labels pc = .ok bytes)
    (hholds : Holds code pc bytes) (hsmall : code.size < 2147483648)
    (hinside : ∀ l, d.Mentions l → ∀ q, Binds labels l q → q < code.size) :
    Decodes code pc (pc + bytes.length) (Emits layout (Binds labels) d) := by
  cases d with
  | label => cases hitem
  | bind l => cases hitem
  | op o =>
    obtain ⟨p, rfl⟩ := hfits
    cases hitem
    cases hbytes
    exact decodes_of_operation hholds (by simp) rfl (.op p)
  | opByte o operand =>
    cases hitem
    cases hbytes
    rcases hfits with rfl | ⟨p, rfl⟩
    · exact (decodes_immediateByte hholds).imp fun _ ho =>
        ho ▸ .immediateByte operand
    · apply decodes_of_operation hholds (by simp) ?_ (.byteOperand p operand)
      rw [operationAt, bind_of_ok (byteAt_ok hholds.tail)]
      rfl
  | opShort o operand =>
    cases hitem
    cases hbytes
    rcases hfits with rfl | ⟨p, rfl⟩
    · exact (decodes_immediateShort hholds).imp fun _ ho =>
        ho ▸ .immediateShort operand
    · exact (decodes_index hholds).imp fun _ ho => ho ▸ .index p operand
  | pushInt n =>
    cases hitem
    cases hbytes
    exact decodes_pushBytes n hfits hholds
  | increment slot delta =>
    cases hitem
    cases hbytes
    have hdelta : delta.toUInt8.toInt8 = delta := by simp
    apply decodes_of_operation hholds (by simp) ?_ (.increment slot delta)
    rw [operationAt, bind_of_ok (byteAt_ok hholds.tail),
      bind_of_ok (byteAt_ok hholds.tail.tail), hdelta]
    rfl
  | invoke o method =>
    obtain ⟨p, rfl⟩ := hfits
    obtain ⟨packed, hpacked, rfl⟩ := Option.map_eq_some_iff.1 hitem
    cases hbytes
    have hpack := eq_ok_of_toOption hpacked
    exact (decodes_index hholds).imp fun _ ho =>
      ho ▸ .invoke p method packed hpack
  | branch o l =>
    cases hitem
    have hlength := ((Item.encode_gives labels pc _).of_ok hbytes).2
    obtain ⟨p, rfl⟩ : ∃ p, o = .branch p := by
      cases o <;> simp_all [Directive.Fits, Opcode.isBranch]
    rw [hlength]
    apply (decodes_branch hbytes hholds (hinside l rfl)).imp
    intro o ho
    obtain ⟨q, hq, rfl⟩ := ho
    exact .branch p l q hq
  | tableSwitch low targets fallback =>
    cases hitem
    obtain ⟨hne, hrange⟩ := hfits
    apply (decodes_tableSwitch hsmall hne hrange hbytes hholds hinside).imp
    intro o ho
    obtain ⟨q, found, hq, hall, rfl⟩ := ho
    exact .tableSwitch low targets found fallback q hq hall
  | lookupSwitch pairs fallback =>
    cases hitem
    have hsorted := stablySorted_mergeSort pairs
    have hinside' := fun l hl => hinside l (mentions_of_sorted hl)
    apply (decodes_lookupSwitch hsmall hbytes hholds hinside').imp
    intro o ho
    obtain ⟨q, found, hq, hall, rfl⟩ := ho
    exact .lookupSwitch pairs _ found fallback q hq hsorted hall

/-- The bytes of the items of an assembler, piece by piece. -/
def encodeAll (labels : Array (Option Nat)) (items : List (Nat × Item)) :
    Except Fault (List (List UInt8)) :=
  items.mapM fun (position, item) => item.encode labels position

/-- Sweeping over the code of a list of directives finds what they ask
for. -/
theorem sweep_spells {pieces : List (List UInt8)}
    (hrun : assembleFrom a ds = .ok c)
    (hpieces : encodeAll labels (places a.layout a.size ds) = .ok pieces)
    (hholds : Holds code a.size pieces.flatten)
    (hend : a.size + pieces.flatten.length = code.size)
    (hsmall : code.size < 2147483648) (hfits : ∀ d ∈ ds, d.Fits)
    (hinside : ∀ d ∈ ds, ∀ l, d.Mentions l →
      ∀ q, Binds labels l q → q < code.size) :
    ∃ instructions, Code.sweepFrom code a.size = .ok instructions ∧
      Spells a.layout (Binds labels) a.size ds instructions code.size := by
  induction ds generalizing a pieces with
  | nil =>
    cases hpieces
    refine ⟨[], ?_, ?_⟩
    · rw [Code.sweepFrom, if_neg (by simp at hend; omega)]
    · rw [← hend]
      exact .done a.size
  | cons d rest ih =>
    obtain ⟨b, hd, hrest⟩ := assembleFrom_cons hrun
    obtain ⟨hlayout, hsize, -⟩ := apply_ok hd
    have hfit := hfits d List.mem_cons_self
    have hlabels := hinside d List.mem_cons_self
    have hfits' := fun d' hd' => hfits d' (List.mem_cons_of_mem d hd')
    have hinside' := fun d' hd' => hinside d' (List.mem_cons_of_mem d hd')
    rw [places, ← hsize, Directive.placed] at hpieces
    rw [Directive.stop] at hsize
    rw [← hlayout] at hpieces hsize ⊢
    cases hitem : d.item? b.layout with
    | none =>
      rw [hitem] at hpieces hsize
      simp only at hsize
      rw [← hsize] at hholds hend ⊢
      obtain ⟨instructions, hsweep, hspells⟩ :=
        ih hrest hpieces hholds hend hfits' hinside'
      rw [hlayout] at hitem
      exact ⟨instructions, hsweep, .silent (silent_of_none hd hitem) hspells⟩
    | some item =>
      rw [hitem] at hpieces hsize
      simp only [encodeAll, Option.toList_some, List.map_cons, List.map_nil,
        List.singleton_append, List.mapM_cons] at hpieces
      obtain ⟨bytes, hbytes, hpieces⟩ := bind_eq_ok hpieces
      obtain ⟨others, hothers, hpieces⟩ := bind_eq_ok hpieces
      cases hpieces
      have hlength := ((Item.encode_gives labels a.size item).of_ok hbytes).2
      simp only [← hlength] at hsize
      rw [List.flatten_cons] at hholds hend
      rw [List.length_append, ← Nat.add_assoc, ← hsize] at hend
      have hbehind := hholds.right
      rw [← hsize] at hbehind
      obtain ⟨i, hdecode, hpc, hnext, hemits⟩ :=
        hfit.decodes hitem hbytes hholds.left hsmall hlabels
      rw [← hsize] at hnext
      obtain ⟨instructions, hsweep, hspells⟩ :=
        ih hrest hothers hbehind hend hfits' hinside'
      have hlt := i.pc_lt_next
      have hmore : a.size < code.size := by omega
      have hstep : a.size + i.len = b.size := by
        rw [← hnext, next, hpc]
      refine ⟨i :: instructions, ?_, ?_⟩
      · rw [Code.sweepFrom, if_pos hmore, hdecode]
        simp only
        rw [hstep]
        exact bind_of_ok hsweep
      · rw [← hnext] at hspells
        rw [← hpc]
        exact .emit hemits hspells

end Decoding

/-! ## A whole method -/

/-- Without bindings before, the table has the last bindings. -/
theorem binds_eq_boundAt (h : assembleFrom (.empty layout) ds = .ok c) :
    Binds c.labels = BoundAt (.empty layout) ds := by
  funext l q
  have hnone : ¬ Binds (Assembler.empty layout).labels l q := by
    simp [Binds, Assembler.empty]
  rw [binds_of_assembleFrom h]
  simp [hnone]

/-- What is placed has its bytes in its place. -/
theorem holds_of_places {code : Array UInt8} {item : Item} {start : Nat}
    {pieces : List (List UInt8)}
    (hpieces : encodeAll labels (places layout start ds) = .ok pieces)
    (hholds : Holds code start pieces.flatten)
    (hmem : (p, item) ∈ places layout start ds) :
    ∃ bytes, item.encode labels p = .ok bytes ∧ Holds code p bytes := by
  induction ds generalizing start pieces with
  | nil => cases hmem
  | cons d rest ih =>
    rw [places, List.mem_append, mem_placed] at hmem
    rw [places, Directive.placed, Directive.stop] at hpieces
    rw [Directive.stop] at hmem
    cases hitem : d.item? layout with
    | none =>
      rw [hitem] at hpieces hmem
      exact ih hpieces hholds (hmem.resolve_left fun h => by cases h.2)
    | some first =>
      rw [hitem] at hpieces hmem
      simp only [encodeAll, Option.toList_some, List.map_cons, List.map_nil,
        List.singleton_append, List.mapM_cons] at hpieces
      obtain ⟨bytes, hbytes, hpieces⟩ := bind_eq_ok hpieces
      obtain ⟨others, hothers, hpieces⟩ := bind_eq_ok hpieces
      cases hpieces
      rw [List.flatten_cons] at hholds
      have hlength := ((Item.encode_gives labels start first).of_ok hbytes).2
      have hbehind := hholds.right
      rw [hlength] at hbehind
      rcases hmem with ⟨rfl, hfirst⟩ | hmem
      · cases hfirst
        exact ⟨bytes, hbytes, hholds.left⟩
      · exact ih hothers hbehind hmem

/-- Finished code has the bytes of a directive where it stands. -/
theorem StandsAt.holds {code : Array UInt8} {item : Item}
    (h : StandsAt (.empty layout) ds d p)
    (hrun : assembleFrom (.empty layout) ds = .ok c)
    (hcode : c.finish = .ok code) (hitem : d.item? layout = some item) :
    ∃ bytes, item.encode c.labels p = .ok bytes ∧ Holds code p bytes := by
  obtain ⟨pieces, hpieces, hcode⟩ := bind_eq_ok hcode
  cases hcode
  have hplaces : c.latest.reverse = places layout 0 ds :=
    latest_of_assembleFrom hrun
  rw [hplaces] at hpieces
  have hmem : (p, item) ∈ places layout 0 ds :=
    (mem_places hrun).2 ⟨d, h, hitem⟩
  exact holds_of_places hpieces (List.prefix_refl _) hmem

theorem StandsAt.mem (h : StandsAt a ds d p) : d ∈ ds := by
  obtain ⟨before, d', after, b, rfl, -, rfl, -⟩ := h
  exact List.mem_append_right _ List.mem_cons_self

/-- Every directive stands somewhere. -/
theorem exists_standsAt (h : assembleFrom a ds = .ok c) (hmem : d ∈ ds) :
    ∃ p, StandsAt a ds d p := by
  induction ds generalizing a with
  | nil => cases hmem
  | cons first rest ih =>
    obtain ⟨b, hfirst, hrest⟩ := assembleFrom_cons h
    unfold StandsAt
    simp only [somewhere_cons hfirst]
    rcases List.mem_cons.1 hmem with rfl | hmem
    · exact ⟨a.size, .inl ⟨rfl, rfl⟩⟩
    · obtain ⟨p, hp⟩ := ih hrest hmem
      exact ⟨p, .inr hp⟩

theorem item_of_mentions (h : d.Mentions l) :
    ∃ item, d.item? layout = some item := by
  cases d with
  | branch o l => exact ⟨_, rfl⟩
  | tableSwitch low targets fallback => exact ⟨_, rfl⟩
  | lookupSwitch pairs fallback => exact ⟨_, rfl⟩
  | _ => exact absurd h id

/-- What all items are waiting for, said of the directives. -/
theorem all_ready_iff (h : assembleFrom (.empty layout) ds = .ok c) :
    (∀ x ∈ c.latest.reverse, x.2.Ready c.labels x.1) ↔
      (∀ d ∈ ds, ∀ l, d.Mentions l → ∃ q, BoundAt (.empty layout) ds l q) ∧
        ∀ o l p q, StandsAt (.empty layout) ds (.branch o l) p →
          BoundAt (.empty layout) ds l q → InReach p q := by
  have hplaces : c.latest.reverse = places layout 0 ds :=
    latest_of_assembleFrom h
  have hmem : ∀ p item, (p, item) ∈ places layout 0 ds ↔
      ∃ d, StandsAt (.empty layout) ds d p ∧ d.item? layout = some item :=
    fun p item => mem_places h
  rw [hplaces, ← binds_eq_boundAt h]
  constructor
  · intro hall
    refine ⟨?_, ?_⟩
    · intro d hd l hl
      obtain ⟨p, hp⟩ := exists_standsAt h hd
      obtain ⟨item, hitem⟩ := item_of_mentions hl
      have hready := hall (p, item) ((hmem p item).2 ⟨d, hp, hitem⟩)
      exact ((ready_iff hitem).1 hready).1 l hl
    · intro o l p q hp hq
      have hitem : (Directive.branch o l).item? layout = some (.branch o l) :=
        rfl
      have hready := hall (p, .branch o l) ((hmem p _).2 ⟨_, hp, hitem⟩)
      exact ((ready_iff hitem).1 hready).2 o l rfl q hq
  · intro hall x hx
    obtain ⟨hbound, hreach⟩ := hall
    obtain ⟨d, hd, hitem⟩ := (hmem x.1 x.2).1 hx
    refine (ready_iff hitem).2 ⟨hbound d hd.mem, ?_⟩
    intro o l heq q hq
    exact hreach o l x.1 q (heq ▸ hd) hq

/-- A method has no code exactly if a label that is used is bound nowhere, or
a branch is too far from its label. -/
theorem finish_error_iff (h : assembleFrom (.empty layout) ds = .ok c) :
    (∃ e, c.finish = .error e) ↔
      (∃ d ∈ ds, ∃ l, d.Mentions l ∧ ¬ ∃ q, BoundAt (.empty layout) ds l q) ∨
        ∃ o l p q, StandsAt (.empty layout) ds (.branch o l) p ∧
          BoundAt (.empty layout) ds l q ∧ ¬ InReach p q := by
  have hfinish := finish_gives c
  rw [all_ready_iff h] at hfinish
  constructor
  · intro herror
    obtain ⟨e, he⟩ := herror
    have hnot := hfinish.of_error he
    by_contra hnone
    apply hnot
    refine ⟨?_, ?_⟩
    · intro d hd l hl
      by_contra hunbound
      exact hnone (.inl ⟨d, hd, l, hl, hunbound⟩)
    · intro o l p q hp hq
      by_contra hfar
      exact hnone (.inr ⟨o, l, p, q, hp, hq, hfar⟩)
  · intro hbad
    cases hcode : c.finish with
    | error e => exact ⟨e, rfl⟩
    | ok code =>
      obtain ⟨hbound, hreach⟩ := hfinish.of_ok hcode
      rcases hbad with ⟨d, hd, l, hl, hunbound⟩ | ⟨o, l, p, q, hp, hq, hfar⟩
      · exact absurd (hbound d hd l hl) hunbound
      · exact absurd (hreach o l p q hp hq) hfar

/-- **Assembling and decoding are inverse.**  A method that is written with
opcodes of the right shape has no code exactly if a label that is used is
bound nowhere or out of reach of a branch.  Otherwise, if the code is shorter
than 2147483648 bytes and no used label is bound to its end, decoding it from
its start finds the written instructions one behind the other, with every
target where its label is bound, and nothing behind them. -/
theorem assembly_roundtrip {layout : RefLayout} {ds : List Directive}
    {c : Assembler} (h : assembleFrom (.empty layout) ds = .ok c)
    (hfits : ∀ d ∈ ds, d.Fits) :
    ((∃ e, c.finish = .error e) ↔
      (∃ d ∈ ds, ∃ l, d.Mentions l ∧ ¬ ∃ q, BoundAt (.empty layout) ds l q) ∨
        ∃ o l p q, StandsAt (.empty layout) ds (.branch o l) p ∧
          BoundAt (.empty layout) ds l q ∧ ¬ InReach p q) ∧
    ∀ code, c.finish = .ok code → code.size < 2147483648 →
      (∀ d ∈ ds, ∀ l, d.Mentions l →
        ∀ q, BoundAt (.empty layout) ds l q → q < code.size) →
      ∃ instructions, Code.sweepFrom code 0 = .ok instructions ∧
        Spells layout (BoundAt (.empty layout) ds) 0 ds instructions
          code.size := by
  refine ⟨finish_error_iff h, ?_⟩
  intro code hcode hsmall hinside
  obtain ⟨pieces, hpieces, hcode⟩ := bind_eq_ok hcode
  cases hcode
  have hplaces : c.latest.reverse = places layout 0 ds :=
    latest_of_assembleFrom h
  rw [hplaces] at hpieces
  rw [← binds_eq_boundAt h] at hinside ⊢
  apply sweep_spells h hpieces ?_ ?_ hsmall hfits hinside
  · exact List.prefix_refl _
  · simp [Assembler.empty]

/-- A loop around two switches, with a jump forwards and one backwards. -/
def switchLoop : List Directive :=
  [.label, .label, .pushInt 300, .bind 0, .branch (.branch (.ifInt .eq)) 1,
    .lookupSwitch [(-2, 0), (7, 1)] 1, .tableSwitch 5 [0, 1] 0, .bind 1,
    .op (.plain .returnVoid)]

/-- The loop is assembled and decodes. -/
theorem assembly_roundtrip_switchLoop :
    ∃ c code, assembleFrom (.empty .standard) switchLoop = .ok c ∧
      c.finish = .ok code ∧ code.size = 57 ∧
      ∃ instructions, Code.sweepFrom code 0 = .ok instructions ∧
        Spells .standard (BoundAt (.empty .standard) switchLoop) 0 switchLoop
          instructions 57 := by
  have hsort : List.mergeSort [((-2 : Int32), 0), (7, 1)]
      (fun x y => decide (x.1 ≤ y.1)) = [(-2, 0), (7, 1)] :=
    List.mergeSort_of_pairwise (by decide)
  have hrun : assembleFrom (.empty .standard) switchLoop = .ok
      { layout := .standard
        size := 57
        latest :=
          [(56, .bytes [0xb1]), (32, .tableSwitch 5 [0, 1] 0),
            (6, .lookupSwitch [(-2, 0), (7, 1)] 1),
            (3, .branch (.branch (.ifInt .eq)) 1),
            (0, .bytes [0x11, 0x01, 0x2c])]
        labels := #[some 3, some 56] } := by
    simp only [assembleFrom, switchLoop, List.foldlM_cons, Directive.apply,
      Assembler.lookupSwitch, hsort]
    rfl
  have hfits : ∀ d ∈ switchLoop, d.Fits := by
    simp [switchLoop, Directive.Fits, Opcode.isBranch]
  obtain ⟨-, hdecodes⟩ := assembly_roundtrip hrun hfits
  refine ⟨_, _, hrun, rfl, rfl, ?_⟩
  apply hdecodes _ rfl (by decide)
  rw [← binds_eq_boundAt hrun]
  intro d _ l _ q hq
  have hlabels : (#[some 3, some 56] : Array (Option Nat))[l]? =
    some (some q) := hq
  rcases l with _ | _ | l
  · cases hlabels
    decide
  · cases hlabels
    decide
  · simp at hlabels

end SlotVm
