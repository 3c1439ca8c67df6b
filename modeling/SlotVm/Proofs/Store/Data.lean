import SlotVm.Machine.Execute
import SlotVm.Proofs.Store.Ready

/-!
# Instructions on the store

Every instruction that works on the operand stack and the heap keeps to
`Store.Change`, and stops only at faults that it may raise.  There is one
statement for each function of `SlotVm.Data`, and `Ready.executeData`
collects those of the instructions without operand.

An access to an element of an array never meets `slotOutOfBounds`: the
position is compared with the length first.  An access to a field has no
such check, so its statement asks for that fault.

Floats come from instructions that need float support, with one exception:
an array of floats turns an unwritten slot into the float zero.
-/

namespace SlotVm

/-- What an element can hold of a value: the value itself, a float, a small
integer, or one of 16 bits. -/
theorem ArrayKind.narrow_ok {k : ArrayKind} {op : String} {v w : Value}
    (hw : k.narrow op v = .ok w) :
    w = v ∨ (k = .float ∧ ∃ x, w = .float x) ∨
      ∃ n, w = .int n ∧ (IsSmall n ∨ IsShort n ∧ (k = .char ∨ k = .short)) := by
  cases k with
  | float =>
    obtain ⟨x, -, hw⟩ := bind_eq_ok hw
    cases hw
    exact .inr (.inl ⟨rfl, x, rfl⟩)
  | reference =>
    unfold narrow at hw
    simp only at hw
    split at hw
    · cases hw
      exact .inl rfl
    · cases hw
  | int =>
    obtain ⟨n, hn, hw⟩ := bind_eq_ok hw
    cases hw
    rcases Value.asInt_ok hn with rfl | ⟨rfl, rfl⟩
    · exact .inl rfl
    · exact .inr (.inr ⟨0, rfl, .inl ⟨by decide, by decide⟩⟩)
  | boolean =>
    obtain ⟨n, -, hw⟩ := bind_eq_ok hw
    cases hw
    exact .inr (.inr ⟨_, rfl, .inl (isSmall_truth n)⟩)
  | byte =>
    obtain ⟨n, -, hw⟩ := bind_eq_ok hw
    cases hw
    exact .inr (.inr ⟨_, rfl, .inl (isSmall_toInt8 n)⟩)
  | char =>
    obtain ⟨n, -, hw⟩ := bind_eq_ok hw
    cases hw
    exact .inr (.inr ⟨_, rfl, .inr ⟨isShort_char n, .inl rfl⟩⟩)
  | short =>
    obtain ⟨n, -, hw⟩ := bind_eq_ok hw
    cases hw
    exact .inr (.inr ⟨_, rfl, .inr ⟨isShort_toInt16 n, .inr rfl⟩⟩)

/-- A narrowed value comes from where the value came from. -/
theorem ArrayKind.narrow_origin {δ : Type} {p : Program} {K : Value → Prop}
    {s : Store δ} {h : Heap} {k : ArrayKind} {op : String} {v w : Value}
    (hv : Store.Origin p K s h v)
    (hfloat : k = .float → s.AdmitsFloats p)
    (hshorts : k = .char ∨ k = .short → h.HasShorts)
    (hw : k.narrow op v = .ok w) : Store.Origin p K s h w := by
  rcases narrow_ok hw with rfl | ⟨hk, x, rfl⟩ | ⟨n, rfl, hsmall | ⟨hn, hk⟩⟩
  · exact hv
  · exact .float x (hfloat hk)
  · exact .small hsmall
  · exact .int n (.inr (.inl ⟨hn, hshorts hk⟩))

/-- An array of elements of 16 bits. -/
theorem Heap.hasShorts_of_element {h : Heap} {entry : Header} {i : Nat}
    {k : ArrayKind} (hentry : h.objects[i]? = some entry)
    (hkind : entry.kind.element? = some k) (hk : k = .char ∨ k = .short) :
    h.HasShorts := by
  refine ⟨entry, Array.mem_of_getElem? hentry, ?_⟩
  cases hentry' : entry.kind with
  | array element =>
    rw [hentry'] at hkind
    cases hkind
    rcases hk with rfl | rfl
    · exact .inl rfl
    · exact .inr rfl
  | chunk | object c =>
    rw [hentry'] at hkind
    cases hkind

theorem ArrayKind.narrow_error {k : ArrayKind} {op : String} {v : Value}
    {e : Fault} (he : k.narrow op v = .error e) : e.Common := by
  cases k with
  | float =>
    unfold narrow at he
    cases hx : v.asFloat op with
    | error e' =>
      rw [hx] at he
      cases he
      exact Value.asFloat_error hx
    | ok x => simp [hx, bind, Except.bind, pure, Except.pure] at he
  | reference =>
    unfold narrow at he
    simp only at he
    split at he
    · cases he
    · cases he
      trivial
  | boolean | char | byte | short | int =>
    unfold narrow at he
    cases hn : v.asInt op with
    | error e' =>
      rw [hn] at he
      cases he
      exact Value.asInt_error hn
    | ok n => simp [hn, bind, Except.bind, pure, Except.pure] at he

namespace Store

open SlotVm.Action

variable {δ : Type} {p : Program} {K : Value → Prop} {W : UInt16 → Prop}
variable {statics : UInt16} {s t : Store δ} {F : Fault → Prop}

/-- Floats are admitted where there is an array of them. -/
theorem Quiet.admitsFloats {entry : Header} {k : Nat} (ht : Quiet p K s t)
    (hentry : t.heap.objects[k]? = some entry)
    (hkind : entry.kind.element? = some .float) : s.AdmitsFloats p := by
  cases hk : entry.kind with
  | array element =>
    rw [hk] at hkind
    cases hkind
    rcases ht.added k entry hentry with hold | ⟨-, hallowed⟩
    · exact .inr ⟨entry, Array.mem_of_getElem? hold, hk⟩
    · rw [hk] at hallowed
      exact .inl hallowed
  | chunk | object c =>
    rw [hk] at hkind
    cases hkind

namespace Ready

variable (h : Ready p K statics s F)

include h

/-! ## Numbers -/

theorem pushInt (n : Int32) (ht : Quiet p K s t) :
    Ends (Data.pushInt p.config.word n) t (fun _ u => Quiet p K s u)
      (Stopped p K s F) :=
  (h.push ht (.wrapped n)).imp fun _ _ hu => hu.1

theorem popIntPair (op : String) (ht : Quiet p K s t) :
    Ends (Data.popIntPair op) t (fun _ u => Quiet p K s u)
      (Stopped p K s F) := by
  refine (h.popInt op ht).bind ?_
  intro b u hu
  refine (h.popInt op hu.1).bind ?_
  intro a w hw
  exact Ends.pure hw.1

theorem popFloatPair (op : String) (ht : Quiet p K s t) :
    Ends (Data.popFloatPair op) t (fun _ u => Quiet p K s u)
      (Stopped p K s F) := by
  refine (h.popFloat op ht).bind ?_
  intro b u hu
  refine (h.popFloat op hu.1).bind ?_
  intro a w hw
  exact Ends.pure hw.1

theorem intBinary (op : IntOp) :
    Ends (Data.intBinary p.config.word op) s (fun _ u => Quiet p K s u)
      (Stopped p K s F) := by
  refine (h.popIntPair op.mnemonic h.quiet_self).bind ?_
  intro ab u hu
  exact h.pushInt _ hu

theorem intQuotient (op : String) (f : Int32 → Int32 → Int32) :
    Ends (Data.intQuotient p.config.word op f) s (fun _ u => Quiet p K s u)
      (Stopped p K s F) := by
  refine (h.popIntPair op h.quiet_self).bind ?_
  intro pair u hu
  obtain ⟨a, b⟩ := pair
  by_cases hb : b = 0
  · simp only [if_pos hb]
    exact Ends.throw ⟨hu, h.common _ trivial⟩
  · simp only [if_neg hb]
    exact h.pushInt _ hu

theorem intUnary (op : String) (f : Int32 → Int32) :
    Ends (Data.intUnary p.config.word op f) s (fun _ u => Quiet p K s u)
      (Stopped p K s F) := by
  refine (h.popInt op h.quiet_self).bind ?_
  intro a u hu
  exact h.pushInt _ hu.1

theorem floatBinary (op : FloatOp) (hfloat : s.AdmitsFloats p) :
    Ends (Data.floatBinary op) s (fun _ u => Quiet p K s u)
      (Stopped p K s F) := by
  refine (h.popFloatPair op.mnemonic h.quiet_self).bind ?_
  intro pair u hu
  obtain ⟨x, y⟩ := pair
  exact (h.push hu (.float _ hfloat)).imp fun _ _ hw => hw.1

theorem floatCompare (op : String) {unordered : Int32}
    (hunordered : IsSmall unordered) :
    Ends (Data.floatCompare op unordered) s (fun _ u => Quiet p K s u)
      (Stopped p K s F) := by
  refine (h.popFloatPair op h.quiet_self).bind ?_
  intro pair u hu
  obtain ⟨x, y⟩ := pair
  exact (h.push hu (.small (isSmall_compare x y hunordered))).imp
    fun _ _ hw => hw.1

/-! ## The operand stack -/

theorem dup :
    Ends Data.dup s (fun _ u => Quiet p K s u) (Stopped p K s F) := by
  refine (h.peek 0 h.quiet_self).bind ?_
  intro v u hend
  obtain ⟨rfl, hv, -⟩ := hend
  exact (h.push h.quiet_self hv).imp fun _ _ hu => hu.1

theorem dup2 :
    Ends Data.dup2 s (fun _ u => Quiet p K s u) (Stopped p K s F) := by
  refine (h.peek 0 h.quiet_self).bind ?_
  intro v1 u hend
  obtain ⟨rfl, hv1, -⟩ := hend
  refine (h.peek 1 h.quiet_self).bind ?_
  intro v2 u' hend
  obtain ⟨rfl, hv2, -⟩ := hend
  refine (h.push h.quiet_self hv2).bind ?_
  intro _ w hend
  obtain ⟨hw, hheap⟩ := hend
  rw [← hheap] at hv1
  exact (h.push hw hv1).imp fun _ _ hu => hu.1

theorem dupX1 :
    Ends Data.dupX1 s (fun _ u => Quiet p K s u) (Stopped p K s F) := by
  refine (h.pop h.quiet_self).bind ?_
  intro v1 t1 hend
  obtain ⟨ht1, heq1, hv1, -⟩ := hend
  refine (h.pop ht1).bind ?_
  intro v2 t2 hend
  obtain ⟨ht2, heq2, hv2, -⟩ := hend
  rw [← heq1, ← heq2] at hv1
  rw [← heq2] at hv2
  refine (h.push ht2 hv1).bind ?_
  intro _ t3 hend
  obtain ⟨ht3, heq3⟩ := hend
  rw [← heq3] at hv1 hv2
  refine (h.push ht3 hv2).bind ?_
  intro _ t4 hend
  obtain ⟨ht4, heq4⟩ := hend
  rw [← heq4] at hv1
  exact (h.push ht4 hv1).imp fun _ _ hu => hu.1

theorem swap :
    Ends Data.swap s (fun _ u => Quiet p K s u) (Stopped p K s F) := by
  refine (h.pop h.quiet_self).bind ?_
  intro v1 t1 hend
  obtain ⟨ht1, heq1, hv1, -⟩ := hend
  refine (h.pop ht1).bind ?_
  intro v2 t2 hend
  obtain ⟨ht2, heq2, hv2, -⟩ := hend
  rw [← heq1, ← heq2] at hv1
  rw [← heq2] at hv2
  refine (h.push ht2 hv1).bind ?_
  intro _ t3 hend
  obtain ⟨ht3, heq3⟩ := hend
  rw [← heq3] at hv2
  exact (h.push ht3 hv2).imp fun _ _ hu => hu.1

/-! ## Arrays -/

/-- The handle that `popArray` takes names an array of the given kind. -/
theorem popArray (op : String) (ht : Quiet p K s t) :
    Ends (Data.popArray op) t
      (fun x u => Quiet p K s u ∧ u.heap = t.heap ∧
        Origin p K s u.heap (.ref x.1) ∧
        ∃ entry, u.heap.objects[x.1.toNat]? = some entry ∧
          entry.kind.element? = some x.2)
      (Stopped p K s F) := by
  refine (h.popHandle op ht).bind ?_
  intro r u hend
  obtain ⟨hu, hheap, hr⟩ := hend
  rw [← hheap] at hr
  refine (h.header hu hr).bind ?_
  intro entry w hend
  obtain ⟨rfl, hentry⟩ := hend
  cases helement : entry.kind.element? with
  | some element =>
    exact Ends.pure ⟨hu, hheap, hr, entry, hentry, helement⟩
  | none => exact Ends.throw ⟨hu, h.common _ trivial⟩

/-- The position that `elementAt` gives is inside the array. -/
theorem elementAt {r : UInt16} (index : Int32) (ht : Quiet p K s t)
    (hr : Origin p K s t.heap (.ref r)) :
    Ends (Data.elementAt r index) t
      (fun position u => u = t ∧ ∀ entry,
        t.heap.objects[r.toNat]? = some entry → position < entry.len)
      (Stopped p K s F) := by
  refine (h.len ht hr).bind ?_
  intro length u hend
  obtain ⟨rfl, entry, hentry, rfl⟩ := hend
  by_cases hindex : 0 ≤ index.toInt ∧ index.toInt < entry.len
  · simp only [if_pos hindex]
    refine Ends.pure ⟨rfl, ?_⟩
    intro entry' hentry'
    rw [hentry] at hentry'
    cases hentry'
    omega
  · simp only [if_neg hindex]
    exact Ends.throw ⟨ht, h.common _ trivial⟩

theorem arrayLoad (op : String) :
    Ends (Data.arrayLoad op) s (fun _ u => Quiet p K s u)
      (Stopped p K s F) := by
  refine (h.popInt op h.quiet_self).bind ?_
  intro index t hend
  obtain ⟨ht, -⟩ := hend
  refine (h.popArray op ht).bind ?_
  intro pair u hend
  obtain ⟨r, k⟩ := pair
  obtain ⟨hu, -, hr, -⟩ := hend
  refine (h.elementAt index hu hr).bind ?_
  intro position w hend
  obtain ⟨rfl, hposition⟩ := hend
  refine (hu.loadSlot position (h.grounded hu hr).1 ?_).bind ?_
  · intro entry hentry hlen
    have hlt := hposition entry hentry
    omega
  · intro v w' hend
    obtain ⟨rfl, -, hv⟩ := hend
    exact (h.push hu hv).imp fun _ _ hw => hw.1

theorem arrayStore (op : String) :
    Ends (Data.arrayStore op) s (fun _ u => Change p K (· ≠ statics) s u)
      (Stopped p K s F) := by
  refine (h.pop h.quiet_self).bind ?_
  intro v t1 hend
  obtain ⟨ht1, heq1, hv, -⟩ := hend
  refine (h.popInt op ht1).bind ?_
  intro index t2 hend
  obtain ⟨ht2, heq2⟩ := hend
  refine (h.popArray op ht2).bind ?_
  intro pair t3 hend
  obtain ⟨r, k⟩ := pair
  obtain ⟨ht3, heq3, hr, entry, hentry, hkind⟩ := hend
  rw [← heq1, ← heq2, ← heq3] at hv
  refine (h.elementAt index ht3 hr).bind ?_
  intro position u hend
  obtain ⟨rfl, hposition⟩ := hend
  have hfloat : k = .float → s.AdmitsFloats p := by
    intro heq
    obtain rfl := heq
    exact ht3.admitsFloats hentry hkind
  have hnarrow : Ends (Action.lift (k.narrow op v)) u
      (fun w u' => u' = u ∧ Origin p K s u.heap w) (Stopped p K s F) := by
    apply Ends.lift
    · intro w hw
      exact ⟨rfl, ArrayKind.narrow_origin hv hfloat
        (Heap.hasShorts_of_element hentry hkind) hw⟩
    · intro e he
      exact ⟨ht3, h.common e (ArrayKind.narrow_error he)⟩
  refine hnarrow.bind ?_
  intro w u' hend
  obtain ⟨rfl, hw⟩ := hend
  refine (ht3.storeSlot position (h.grounded ht3 hr).1
    (W := (· ≠ statics)) (h.ne_statics ht3 hr) hw ?_).imp fun _ _ hu => hu.1
  intro entry' hentry' hlen
  have hlt := hposition entry' hentry'
  omega

theorem newArray (element : ArrayKind)
    (hkind : p.Allocates (.array element)) :
    Ends (Data.newArray element) s (fun _ u => Quiet p K s u)
      (Stopped p K s F) := by
  refine (h.popInt "newarray" h.quiet_self).bind ?_
  intro size t hend
  obtain ⟨ht, -⟩ := hend
  by_cases hsize : size < 0
  · simp only [if_pos hsize]
    exact Ends.throw ⟨ht, h.common _ trivial⟩
  · simp only [if_neg hsize]
    have hzero : ∀ heap, Origin p K s heap
        (Heap.freshValue (ObjectKind.array element) true) := by
      intro heap
      cases element with
      | float => exact .float _ (.inl hkind)
      | reference => exact .null
      | boolean | char | byte | short | int =>
        exact .small ⟨by decide, by decide⟩
    refine (h.allocate true size.toInt.toNat ht hkind
      fun heap _ => hzero heap).bind ?_
    intro r u hend
    obtain ⟨hu, hr, -⟩ := hend
    exact (h.push hu hr).imp fun _ _ hw => hw.1

theorem arrayLength :
    Ends (Data.arrayLength p.config.word) s (fun _ u => Quiet p K s u)
      (Stopped p K s F) := by
  refine (h.popArray "arraylength" h.quiet_self).bind ?_
  intro pair t hend
  obtain ⟨r, k⟩ := pair
  obtain ⟨ht, -, hr, -⟩ := hend
  refine (h.len ht hr).bind ?_
  intro length u hend
  obtain ⟨rfl, -⟩ := hend
  exact h.pushInt _ ht

/-! ## Objects -/

theorem pushSlot {r : UInt16} (index : Nat) (ht : Quiet p K s t)
    (hr : t.heap.Contains r)
    (hslot : ∀ i n, F (.slotOutOfBounds i n)) :
    Ends (Data.pushSlot r index) t (fun _ u => Quiet p K s u)
      (Stopped p K s F) := by
  refine (ht.loadSlot index hr fun _ _ _ => hslot _ _).bind ?_
  intro v u hend
  obtain ⟨rfl, -, hv⟩ := hend
  exact (h.push ht hv).imp fun _ _ hu => hu.1

theorem popIntoSlot {r : UInt16} (index : Nat) (hr : s.heap.Contains r)
    (hW : W r) (hslot : ∀ i n, F (.slotOutOfBounds i n)) :
    Ends (Data.popIntoSlot r index) s (fun _ u => Change p K W s u)
      (Stopped p K s F) := by
  refine (h.pop h.quiet_self).bind ?_
  intro v t hend
  obtain ⟨ht, heq, hv, -⟩ := hend
  rw [← heq] at hr hv
  exact (ht.storeSlot index hr hW hv fun _ _ _ => hslot _ _).imp
    fun _ _ hu => hu.1

theorem getField (index : Nat) (hslot : ∀ i n, F (.slotOutOfBounds i n)) :
    Ends (Data.getField index) s (fun _ u => Quiet p K s u)
      (Stopped p K s F) := by
  refine (h.popHandle "getfield" h.quiet_self).bind ?_
  intro r t hend
  obtain ⟨ht, heq, hr⟩ := hend
  rw [← heq] at hr
  exact h.pushSlot index ht (h.grounded ht hr).1 hslot

theorem putField (index : Nat) (hslot : ∀ i n, F (.slotOutOfBounds i n)) :
    Ends (Data.putField index) s (fun _ u => Change p K (· ≠ statics) s u)
      (Stopped p K s F) := by
  refine (h.pop h.quiet_self).bind ?_
  intro v t hend
  obtain ⟨ht, heq1, hv, -⟩ := hend
  refine (h.popHandle "putfield" ht).bind ?_
  intro r u hend
  obtain ⟨hu, heq2, hr⟩ := hend
  rw [← heq2] at hr
  rw [← heq1, ← heq2] at hv
  exact (hu.storeSlot index (h.grounded hu hr).1 (W := (· ≠ statics))
    (h.ne_statics hu hr) hv fun _ _ _ => hslot _ _).imp fun _ _ hw => hw.1

theorem newObject {c : ClassDescriptor} (hc : p.Allocates (.object c.id)) :
    Ends (Data.newObject c) s (fun _ u => Quiet p K s u)
      (Stopped p K s F) := by
  refine (h.allocate true c.fields.toNat h.quiet_self hc
    fun _ _ => .zero).bind ?_
  intro r t hend
  obtain ⟨ht, hr, -⟩ := hend
  exact (h.push ht hr).imp fun _ _ hu => hu.1

/-! ## All instructions without operand -/

theorem pop2 :
    Ends (Store.onStack (Stack.popN 2)) s (fun _ u => Quiet p K s u)
      (Stopped p K s F) := by
  have hpop : Ends (Stack.popN 2) s.stack
      (fun _ stack => Takes p K s s stack ∧ True)
      (fun e stack => Takes p K s s stack ∧ e.Common) := by
    apply (Stack.popN_ends h.sound.bounded 2).mono
    · intro args stack hend
      obtain ⟨habove, -, hoperands⟩ := hend
      exact ⟨h.quiet_self.takes_lower habove hoperands, trivial⟩
    · intro e stack hend
      obtain ⟨rfl, -, rfl⟩ := hend
      exact ⟨h.quiet_self.takes_self, trivial⟩
  exact (h.onStack h.quiet_self hpop).imp fun _ _ hu => hu.1

/-- Every instruction without operand that changes the store only. -/
theorem executeData (op : PlainOp)
    (hfloat : (Opcode.plain op).feature? = some .float →
      p.config.features.float = true) :
    Ends (Machine.executeData p.config.word op) s
      (fun _ u => Change p K (· ≠ statics) s u) (Stopped p K s F) := by
  have hq : ∀ {α : Type} {a : Action (Store δ) α},
      Ends a s (fun _ u => Quiet p K s u) (Stopped p K s F) →
      Ends a s (fun _ u => Change p K (· ≠ statics) s u)
        (Stopped p K s F) :=
    fun ha => ha.imp fun _ _ hu => hu.change
  have hpush : ∀ v, Origin p K s s.heap v →
      Ends (Store.push v) s (fun _ u => Quiet p K s u) (Stopped p K s F) :=
    fun v hv => (h.push h.quiet_self hv).imp fun _ _ hu => hu.1
  cases op with
  | pushNull => exact hq (hpush _ .null)
  | pushInt n => exact hq (h.pushInt _ h.quiet_self)
  | pushFloat n => exact hq (hpush _ (.float _ (.inl (hfloat rfl))))
  | arrayLoad element => exact hq (h.arrayLoad _)
  | arrayStore element => exact h.arrayStore _
  | pop =>
    refine hq ((h.pop h.quiet_self).bind ?_)
    intro v u hend
    obtain ⟨hu, -⟩ := hend
    exact Ends.pure hu
  | pop2 => exact hq (h.pop2.bind fun _ _ hu => Ends.pure hu)
  | dup => exact hq h.dup
  | dupX1 => exact hq h.dupX1
  | dup2 => exact hq h.dup2
  | swap => exact hq h.swap
  | intBinary f => exact hq (h.intBinary f)
  | intDiv => exact hq (h.intQuotient _ _)
  | intRem => exact hq (h.intQuotient _ _)
  | intNeg => exact hq (h.intUnary _ _)
  | floatBinary f => exact hq (h.floatBinary f (.inl (hfloat rfl)))
  | floatNeg =>
    refine hq ((h.popFloat _ h.quiet_self).bind ?_)
    intro x u hend
    obtain ⟨hu, -⟩ := hend
    exact (h.push hu (.float _ (.inl (hfloat rfl)))).imp fun _ _ hw => hw.1
  | intToFloat =>
    refine hq ((h.popInt _ h.quiet_self).bind ?_)
    intro n u hend
    obtain ⟨hu, -⟩ := hend
    exact (h.push hu (.float _ (.inl (hfloat rfl)))).imp fun _ _ hw => hw.1
  | floatToInt =>
    refine hq ((h.popFloat _ h.quiet_self).bind ?_)
    intro x u hend
    obtain ⟨hu, -⟩ := hend
    have hrange := p.config.word.inRange_truncate x
    exact (h.push hu (.int _ (.inl hrange))).imp fun _ _ hw => hw.1
  | narrow kind => exact hq (h.intUnary _ _)
  | floatCompareLess => exact hq (h.floatCompare _ ⟨by decide, by decide⟩)
  | floatCompareGreater => exact hq (h.floatCompare _ ⟨by decide, by decide⟩)
  | arrayLength => exact hq (h.arrayLength)
  | nop | load | store | returnValue | returnVoid =>
    exact Ends.pure h.quiet_self.change

/-- Whether a branch is taken. -/
theorem branchTaken (op : BranchOp) :
    Ends (Machine.branchTaken op) s (fun _ u => Quiet p K s u)
      (Stopped p K s F) := by
  cases op with
  | ifInt c =>
    refine (h.popInt _ h.quiet_self).bind ?_
    intro a u hend
    obtain ⟨hu, -⟩ := hend
    exact Ends.pure hu
  | ifIntPair c =>
    refine (h.popIntPair _ h.quiet_self).bind ?_
    intro pair u hu
    obtain ⟨a, b⟩ := pair
    exact Ends.pure hu
  | ifRefPair same =>
    refine (h.pop h.quiet_self).bind ?_
    intro b t hend
    obtain ⟨ht, -⟩ := hend
    refine (h.pop ht).bind ?_
    intro a u hend
    obtain ⟨hu, -⟩ := hend
    exact Ends.pure hu
  | goto => exact Ends.pure h.quiet_self
  | ifNull null =>
    refine (h.pop h.quiet_self).bind ?_
    intro a u hend
    obtain ⟨hu, -⟩ := hend
    exact Ends.pure hu

end Ready

end Store

end SlotVm
