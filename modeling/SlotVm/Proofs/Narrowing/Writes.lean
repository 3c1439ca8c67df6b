import SlotVm.Proofs.Narrowing.Elements
import SlotVm.Proofs.Narrowing.Spared
import SlotVm.Proofs.Store.Native

/-!
# What writes to the heap

Three kinds of operations put values into the heap.  New arrays hold admitted
values, and so does a slot after an array store, which narrows.  But
`putfield` writes into any object that its operand refers to, and the string
buffer methods write into their receiver, whatever it is: `Operation.Puts`
says which values they put where.

The statements say that the heap after an operation narrows from the one
before, with these values excused.  They are put together from those of
`SlotVm.Proofs.Narrowing.Spared` by `Ends.bind` and the transitivity of
`Heap.Narrows`.
-/

namespace SlotVm

open SlotVm.Action

variable {δ α β : Type}

/-- However the action ends from the state, the heap afterwards narrows from
the one before. -/
def Action.Narrows {σ : Type} (heap : σ → Heap)
    (X : UInt16 → Nat → Value → Prop) (a : Action σ α) (s : σ) : Prop :=
  Ends a s (fun _ t => (heap s).Narrows X (heap t))
    fun _ t => (heap s).Narrows X (heap t)

namespace Action.Narrows

variable {σ : Type} {heap : σ → Heap} {X : UInt16 → Nat → Value → Prop}
variable {a : Action σ α} {f : α → Action σ β} {s : σ}

theorem of_spares (h : Spares heap a) (hl : (heap s).Laid) :
    Narrows heap X a s := by
  apply (h s).mono
  · intro x t ht
    rw [ht]
    exact .refl hl
  · intro e t ht
    rw [ht]
    exact .refl hl

/-- The rule for one action after another. -/
protected theorem bind (ha : Narrows heap X a s)
    (hf : ∀ x t, (heap t).Laid → Narrows heap X (f x) t) :
    Narrows heap X (a >>= f) s := by
  refine Ends.bind ha ?_
  intro x t ht
  exact (hf x t ht.laid).mono (fun _ _ hu => ht.trans hu)
    fun _ _ hu => ht.trans hu

/-- The rule for a first action that looks at something known. -/
theorem bind_ok {x : α} (ha : a s = .ok x s) (hf : Narrows heap X (f x) s) :
    Narrows heap X (a >>= f) s :=
  Ends.bind_ok ha hf

/-- The rule for a first action that leaves the heap alone and of which
something is known. -/
theorem bind_ends {mid : α → σ → Prop}
    (ha : Ends a s (fun x t => heap t = heap s ∧ mid x t)
      fun _ t => heap t = heap s) (hl : (heap s).Laid)
    (hf : ∀ x t, heap t = heap s → mid x t → Narrows heap X (f x) t) :
    Narrows heap X (a >>= f) s := by
  refine Ends.bind (ha.imp_fail ?_) ?_
  · intro e t ht
    rw [ht]
    exact .refl hl
  · rintro x t ⟨ht, hmid⟩
    have hend := hf x t ht hmid
    unfold Narrows at hend
    rw [ht] at hend
    exact hend

/-- The rule for a first action that leaves the heap alone. -/
theorem bind_spares (ha : Spares heap a) (hl : (heap s).Laid)
    (hf : ∀ x t, heap t = heap s → Narrows heap X (f x) t) :
    Narrows heap X (a >>= f) s := by
  have hend : Ends a s (fun _ t => heap t = heap s ∧ True)
      (fun _ t => heap t = heap s) :=
    (ha s).imp fun _ _ ht => ⟨ht, trivial⟩
  exact bind_ends hend hl fun x t ht _ => hf x t ht

end Action.Narrows

namespace Store

variable {s : Store δ} {X : UInt16 → Nat → Value → Prop}

/-! ## New objects -/

/-- An object of which all contents are admitted. -/
theorem allocateWith_narrows {a : Action Heap UInt16} (hl : s.heap.Laid)
    {kind : ObjectKind} {contents : Array Value}
    (ha : a s.heap = Heap.allocateWith kind contents s.heap)
    (hcontents : ∀ k, kind = .array k → ∀ v ∈ contents, k.Admits v) :
    Ends (Store.onHeap a) s
      (fun r t => s.heap.Narrows X t.heap ∧ r.toNat = s.heap.objects.size)
      fun _ t => s.heap.Narrows X t.heap := by
  apply Ends.onPart
  apply Ends.of_eq ha
  apply (Heap.allocateWith_ends s.heap kind contents).mono
  · rintro r heap ⟨hcount, hfree, hr, rfl⟩
    exact ⟨hl.narrows_extend hcount hfree hcontents, hr⟩
  · rintro e heap ⟨rfl, -⟩
    exact hl.narrows_refuse

/-- An object that holds the same value everywhere. -/
theorem allocate_narrows (hl : s.heap.Laid) {kind : ObjectKind} (zeroed : Bool)
    (count : Nat)
    (hfresh : ∀ k, kind = .array k → k.Admits (Heap.freshValue kind zeroed)) :
    Ends (Store.onHeap (Heap.allocateKind kind zeroed count)) s
      (fun r t => s.heap.Narrows X t.heap ∧ r.toNat = s.heap.objects.size)
      fun _ t => s.heap.Narrows X t.heap := by
  apply allocateWith_narrows hl (hl.allocateKind_eq kind zeroed count)
  intro k hk v hv
  rw [Array.eq_of_mem_replicate hv]
  exact hfresh k hk

/-- A text is allocated as an array of characters. -/
theorem allocateText_narrows (hl : s.heap.Laid) (text : String) :
    Ends (Store.onHeap (Strings.allocate text)) s
      (fun r t => s.heap.Narrows X t.heap ∧ r.toNat = s.heap.objects.size)
      fun _ t => s.heap.Narrows X t.heap := by
  apply allocateWith_narrows hl (hl.allocateText_eq text)
  intro k hk v hv
  cases hk
  obtain ⟨c, -, rfl⟩ := List.mem_map.1 (List.mem_toArray.1 hv)
  exact toInt_unit c

theorem newArray_narrows (hl : s.heap.Laid) (element : ArrayKind) :
    Narrows heap X (Data.newArray element) s := by
  refine (Narrows.of_spares (Spares.popInt _) hl).bind ?_
  intro size t ht
  by_cases hsize : size < 0
  · simp only [if_pos hsize]
    exact .of_spares (Spares.throw _) ht
  · simp only [if_neg hsize]
    unfold Heap.allocateArray
    refine Narrows.bind
      ((allocate_narrows ht true _ ?_).imp fun _ _ hu => hu.1) ?_
    · intro k hk
      cases hk
      exact element.zeroValue_admits
    · exact fun r u hu => .of_spares (Spares.push _) hu

/-- An object that is no array. -/
theorem newBlock_narrows (hl : s.heap.Laid) {kind : ObjectKind}
    (hkind : ∀ k, kind ≠ .array k) (zeroed : Bool) (count : Nat) :
    Narrows heap X (do
      let r ← Store.onHeap (Heap.allocateKind kind zeroed count)
      Store.push (.ref r)) s := by
  refine Narrows.bind
    ((allocate_narrows hl zeroed _ ?_).imp fun _ _ hu => hu.1) ?_
  · exact fun k hk => absurd hk (hkind k)
  · exact fun r u hu => .of_spares (Spares.push _) hu

/-! ## Writes -/

/-- A write of a value that is admitted or excused. -/
theorem storeSlot_narrows (hl : s.heap.Laid) {r : UInt16} {i : Nat} {v : Value}
    (hv : ∀ entry k, s.heap.objects[r.toNat]? = some entry →
      entry.kind = .array k → k.Admits v ∨ X r i v) :
    Narrows heap X (Store.storeSlot r i v) s := by
  unfold Store.storeSlot
  apply Ends.onPart
  apply (Heap.store_ends s.heap r i v).mono
  · rintro _ heap ⟨entry, hentry, hi, rfl⟩
    exact hl.narrows_write hentry hi fun k hk => hv entry k hentry hk
  · rintro e heap ⟨rfl, -⟩
    exact .refl hl

/-- Taking the last operand. -/
theorem pop_ends (hb : s.stack.Bounded) :
    Ends Store.pop s
      (fun v t => t.heap = s.heap ∧
        s.stack.operands = t.stack.operands ++ [v] ∧ t.stack.Bounded)
      fun _ t => t.heap = s.heap := by
  unfold Store.pop
  apply Ends.onPart
  apply (Stack.pop_ends hb).mono
  · rintro v stack ⟨habove, hoperands⟩
    exact ⟨rfl, hoperands, habove.bounded⟩
  · exact fun _ _ _ => rfl

/-- Taking an integer. -/
theorem popInt_ends (hb : s.stack.Bounded) (op : String) :
    Ends (Store.popInt op) s
      (fun n t => t.heap = s.heap ∧ t.stack.Bounded ∧ ∃ v,
        s.stack.operands = t.stack.operands ++ [v] ∧ v.asInt op = .ok n)
      fun _ t => t.heap = s.heap := by
  unfold Store.popInt
  apply Ends.onPart
  refine ((Stack.pop_ends hb).imp_fail fun _ _ _ => rfl).bind ?_
  rintro v stack ⟨habove, hoperands⟩
  exact Ends.lift (fun n hn => ⟨rfl, habove.bounded, v, hoperands, hn⟩)
    fun _ _ => rfl

/-- Taking a handle. -/
theorem popHandle_ends (hb : s.stack.Bounded) (op : String) :
    Ends (Store.popHandle op) s
      (fun r t => t.heap = s.heap ∧ t.stack.Bounded ∧
        s.stack.operands = t.stack.operands ++ [.ref r])
      fun _ t => t.heap = s.heap := by
  refine (pop_ends hb).bind ?_
  rintro v t ⟨hheap, hoperands, hbounded⟩
  apply Ends.lift
  · intro r hr
    rw [← Value.asHandle_ok hr]
    exact ⟨hheap, hbounded, hoperands⟩
  · exact fun _ _ => hheap

/-- Taking an array.  The element kind that is found is that of the array. -/
theorem popArray_ends (hb : s.stack.Bounded) (op : String) :
    Ends (Data.popArray op) s
      (fun array t => t.heap = s.heap ∧ t.stack.Bounded ∧
        s.stack.operands = t.stack.operands ++ [.ref array.1] ∧ ∃ entry,
          s.heap.objects[array.1.toNat]? = some entry ∧
          entry.kind = .array array.2) fun _ t => t.heap = s.heap := by
  refine (popHandle_ends hb op).bind ?_
  rintro handle t ⟨ht, hbounded, hoperands⟩
  have hheader : Ends (Store.readHeap (δ := δ) (·.header handle)) t
      (fun entry u => u = t ∧ t.heap.objects[handle.toNat]? = some entry)
      (fun _ u => u.heap = s.heap) :=
    Ends.read (fun _ h => ⟨rfl, Heap.header_ok h⟩) fun _ _ => ht
  refine hheader.bind ?_
  rintro entry _ ⟨rfl, hentry⟩
  rw [ht] at hentry
  cases hkind : entry.kind with
  | array element =>
    exact Ends.pure ⟨ht, hbounded, hoperands, entry, hentry, hkind⟩
  | object | chunk => exact Ends.throw ht

/-- An array store narrows. -/
theorem arrayStore_narrows (hb : s.stack.Bounded) (hl : s.heap.Laid)
    (op : String) : Narrows heap X (Data.arrayStore op) s := by
  refine .bind_ends (pop_ends hb) hl ?_
  rintro v t ht ⟨-, hbounded⟩
  rw [← ht] at hl
  refine .bind_ends (popInt_ends hbounded op) hl ?_
  rintro index t' ht' ⟨hbounded', -⟩
  rw [← ht'] at hl
  refine .bind_ends (popArray_ends hbounded' op) hl ?_
  rintro array u hu ⟨-, -, entry, hentry, hkind⟩
  rw [← hu] at hentry hl
  refine .bind_spares (Spares.elementAt array.1 index) hl fun i w hw => ?_
  rw [← hw] at hentry hl
  have hnarrow : Ends (Action.lift (array.2.narrow op v)) w
      (fun x t => t.heap = w.heap ∧ array.2.narrow op v = .ok x)
      (fun _ t => t.heap = w.heap) :=
    Ends.lift (fun _ h => ⟨rfl, h⟩) fun _ _ => rfl
  refine .bind_ends hnarrow hl ?_
  intro narrowed w' hw' hnarrowed
  rw [← hw'] at hentry hl
  apply storeSlot_narrows hl
  intro entry' k hentry' hk
  cases hentry.symm.trans hentry'
  cases hkind.symm.trans hk
  exact .inl (ArrayKind.narrow_admits hnarrowed)

/-- A write to a block is none to an array. -/
theorem popIntoSlot_narrows (hl : s.heap.Laid) {r : UInt16} {entry : Header}
    (hentry : s.heap.objects[r.toNat]? = some entry)
    (hkind : ∀ k, entry.kind ≠ .array k) (i : Nat) :
    Narrows heap X (Data.popIntoSlot r i) s := by
  refine .bind_spares Spares.pop hl fun v t ht => ?_
  rw [← ht] at hentry hl
  apply storeSlot_narrows hl
  intro entry' k hentry' hk
  cases hentry.symm.trans hentry'
  exact absurd hk (hkind k)

/-- A field store writes what it finds into what it finds. -/
theorem putField_narrows (hb : s.stack.Bounded) (hl : s.heap.Laid) (i : Nat)
    (hX : ∀ below r v, s.stack.operands = below ++ [.ref r, v] → X r i v) :
    Narrows heap X (Data.putField i) s := by
  refine .bind_ends (pop_ends hb) hl ?_
  rintro v t ht ⟨hoperands, hbounded⟩
  rw [← ht] at hl
  refine .bind_ends (popHandle_ends hbounded _) hl ?_
  rintro r u hu ⟨-, hoperands'⟩
  rw [← hu] at hl
  apply storeSlot_narrows hl
  intro entry k _ _
  apply Or.inr
  apply hX u.stack.operands
  rw [hoperands, hoperands', List.append_assoc]
  rfl

end Store

/-! ## Native methods -/

/-- The values that a native method writes into slots of objects as they are.
The receiver of a method of the string buffer may be any object. -/
inductive MethodRef.Puts (s : Store δ) (r : MethodRef) :
    UInt16 → Nat → Value → Prop where
  /-- The constructor without argument empties its receiver. -/
  | empties {buffer : UInt16} {below : List Value} :
      r.classId = Native.stringBuffer → r.methodId = Native.constructorId →
      s.stack.operands = below ++ [.ref buffer] → Puts s r buffer 0 .null
  /-- The other constructor and `append` give their receiver a new array. -/
  | fills {buffer chars : UInt16} {argument : Value} {below : List Value} :
      r.classId = Native.stringBuffer → r.methodId.toNat ∈ [1, 2, 3, 4, 6] →
      s.stack.operands = below ++ [.ref buffer, argument] →
      chars.toNat = s.heap.objects.size → Puts s r buffer 0 (.ref chars)

/-- The log does not count. -/
theorem MethodRef.Puts.of_same {s t : Store δ} {r : MethodRef}
    {buffer : UInt16} {i : Nat} {v : Value} (hst : Store.Same s t)
    (h : r.Puts t buffer i v) : r.Puts s buffer i v := by
  cases h with
  | empties hclass hmethod hoperands =>
    rw [hst.stack_eq] at hoperands
    exact .empties hclass hmethod hoperands
  | fills hclass hmethod hoperands hchars =>
    rw [hst.stack_eq] at hoperands
    rw [hst.heap_eq] at hchars
    exact .fills hclass hmethod hoperands hchars

namespace Store

variable {s : Store δ} {X : UInt16 → Nat → Value → Prop} {image : Image}
variable {r : MethodRef}

/-- The handle in the operand below the last one. -/
theorem operandHandle_ends (op : String) (s : Store δ) :
    Ends (Stdio.operandHandle op 1) s
      (fun r t => t.heap = s.heap ∧ t = s ∧ ∃ below argument,
        s.stack.operands = below ++ [.ref r, argument])
      fun _ t => t.heap = s.heap := by
  apply (Stdio.operandHandle_ends op s 1).mono
  · rintro r _ ⟨rfl, hr⟩
    exact ⟨rfl, rfl, Stack.peek_second hr⟩
  · exact fun _ _ ht => congrArg heap ht

/-- A string buffer is given a new array. -/
theorem setText_narrows (hl : s.heap.Laid) (buffer : UInt16) (text : String)
    (hX : ∀ chars : UInt16, chars.toNat = s.heap.objects.size →
      X buffer 0 (.ref chars)) :
    Narrows heap X (Stdio.setText buffer text) s := by
  refine Ends.bind (allocateText_narrows hl text) ?_
  rintro chars t ⟨ht, hchars⟩
  have hstore : Narrows heap X (Store.storeSlot buffer 0 (.ref chars)) t :=
    storeSlot_narrows ht.laid fun _ _ _ _ => .inr (hX chars hchars)
  exact hstore.mono (fun _ _ hu => ht.trans hu) fun _ _ hu => ht.trans hu

theorem construct_narrows (hclass : r.classId = Native.stringBuffer)
    (hmethod : r.methodId = Native.constructorId) (hb : s.stack.Bounded)
    (hl : s.heap.Laid) : Narrows heap (r.Puts s) Stdio.construct s := by
  refine .bind_ends (popHandle_ends hb _) hl ?_
  rintro buffer t ht ⟨-, hoperands⟩
  rw [← ht] at hl
  exact storeSlot_narrows hl fun _ _ _ _ =>
    .inr (.empties hclass hmethod hoperands)

/-- What is read off the store leaves all of it. -/
theorem read_ends (f : Store δ → Except Fault α) (s : Store δ) :
    Ends (Action.read f) s (fun _ t => t.heap = s.heap ∧ t = s)
      fun _ t => t.heap = s.heap :=
  Ends.read (fun _ _ => ⟨rfl, rfl⟩) fun _ _ => rfl

section Fill

variable (hclass : r.classId = Native.stringBuffer)
variable (hmethod : r.methodId.toNat ∈ [1, 2, 3, 4, 6])

include hclass hmethod

theorem constructFrom_narrows (hl : s.heap.Laid) :
    Narrows heap (r.Puts s) (Stdio.constructFrom image) s := by
  refine .bind_ends (read_ends _ s) hl ?_
  rintro text _ - rfl
  refine .bind_ends (operandHandle_ends _ _) hl ?_
  rintro buffer _ - ⟨rfl, below, argument, hoperands⟩
  refine (setText_narrows hl buffer text fun chars hchars =>
    .fills hclass hmethod hoperands hchars).bind fun _ t ht => ?_
  exact .of_spares ((Spares.onStack _).bind fun _ => Spares.pure _) ht

theorem append_narrows (hl : s.heap.Laid) (argument : Stdio.Argument) :
    Narrows heap (r.Puts s) (Stdio.append image argument) s := by
  refine .bind_ends (read_ends _ s) hl ?_
  rintro suffix _ - rfl
  refine .bind_ends (operandHandle_ends _ _) hl ?_
  rintro buffer _ - ⟨rfl, below, argument, hoperands⟩
  refine .bind_ends (read_ends _ _) hl ?_
  rintro text _ - rfl
  refine (setText_narrows hl buffer _ fun chars hchars =>
    .fills hclass hmethod hoperands hchars).bind fun _ t ht => ?_
  exact .of_spares (Spares.pop.bind fun _ => Spares.pure _) ht

end Fill

/-- A string buffer is replaced by its array, or by a new one. -/
theorem toText_narrows (hl : s.heap.Laid) :
    Narrows heap X Stdio.toText s := by
  have hreplace : ∀ chars : UInt16, Spares heap (do
      let _ ← Store.pop
      Store.push (.ref chars) : Action (Store δ) Unit) :=
    fun chars => Spares.pop.bind fun _ => Spares.push _
  refine .bind_spares (Spares.operandHandle _ 0) hl fun buffer t ht => ?_
  rw [← ht] at hl
  refine .bind_spares (Spares.read _) hl fun v u hu => ?_
  rw [← hu] at hl
  cases v with
  | ref chars => exact .of_spares (hreplace chars) hl
  | null | zero | int | float | const =>
    refine Narrows.bind ((allocateText_narrows hl "").imp fun _ _ h => h.1) ?_
    exact fun chars w hw => .of_spares (hreplace chars) hw

/-- The methods of the string buffer. -/
theorem stringBuffer_narrows (hb : s.stack.Bounded) (hl : s.heap.Laid)
    (hclass : r.classId = Native.stringBuffer) :
    Narrows heap (r.Puts s) (Stdio.stringBuffer image r) s := by
  have hmember : ∀ {n}, r.methodId.toNat = n → n ∈ [1, 2, 3, 4, 6] →
      r.methodId.toNat ∈ [1, 2, 3, 4, 6] := by
    rintro n rfl hn
    exact hn
  unfold Stdio.stringBuffer
  split
  · rename_i hzero
    exact construct_narrows hclass (UInt16.toNat_inj.1 hzero) hb hl
  · exact constructFrom_narrows hclass (hmember ‹_› (by decide)) hl
  · exact append_narrows hclass (hmember ‹_› (by decide)) hl _
  · exact append_narrows hclass (hmember ‹_› (by decide)) hl _
  · exact append_narrows hclass (hmember ‹_› (by decide)) hl _
  · exact toText_narrows hl
  · exact append_narrows hclass (hmember ‹_› (by decide)) hl _
  · exact .of_spares (Spares.throw _) hl

/-- The console family. -/
theorem invokeConsole_narrows (hb : s.stack.Bounded) (hl : s.heap.Laid)
    (r : MethodRef) :
    Narrows heap (r.Puts s) (Stdio.family.invoke image r) s := by
  simp only [Stdio.family]
  split
  · exact .of_spares (Spares.printStream image r) hl
  · split
    · exact .of_spares (Spares.inputStream r) hl
    · split
      · rename_i hclass
        exact stringBuffer_narrows hb hl hclass
      · exact .of_spares (Spares.throw _) hl

/-- A native method of a standard bridge. -/
theorem invoke_narrows {b : Bridge δ} (hstandard : b.Standard)
    (hb : s.stack.Bounded) (hl : s.heap.Laid) (r : MethodRef) :
    Narrows heap (r.Puts s) (b.invoke image r) s := by
  unfold Bridge.invoke
  cases hfamily : b.familyOf? r.classId with
  | none =>
    exact .of_spares ((Spares.record _ _ _).bind fun _ => Spares.throw _) hl
  | some family =>
    have hrecord : ∀ level target text,
        Ends (Store.record level target text) s
          (fun _ t => t.heap = s.heap ∧ Same s t) (fun _ t => t.heap = s.heap) :=
      fun _ _ _ => Ends.modify ⟨rfl, rfl, rfl, rfl⟩
    refine .bind_ends (hrecord _ _ _) hl ?_
    intro _ t ht hsame
    rw [← ht] at hl
    rw [← hsame.stack_eq] at hb
    rcases hstandard.familyOf? hfamily with rfl | rfl
    · exact .of_spares (Spares.invokeRoot image r) hl
    · have hmono : ∀ {u : Store δ}, t.heap.Narrows (r.Puts t) u.heap →
          t.heap.Narrows (r.Puts s) u.heap :=
        fun hu => hu.mono fun _ _ _ h => h.of_same hsame
      exact (invokeConsole_narrows hb hl r).mono (fun _ _ hu => hmono hu)
        fun _ _ hu => hmono hu

end Store

end SlotVm
