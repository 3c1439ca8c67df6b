import SlotVm.Proofs.Integers
import SlotVm.Proofs.Texts

/-!
# Elements of arrays

`ArrayKind.Admits` says what an element of each kind can hold: a truth value,
an integer of a range, a float or a reference.  It is exactly what narrowing
leaves as it is (`ArrayKind.admits_iff_narrow`).

`Heap.Narrows` relates two heaps of which the second came about later.  Each
element of the second one is admitted by its array, or it was there before,
or it is excused: `X` says which values may have been put where without
narrowing.  A new object keeps to this if its contents are admitted
(`Laid.narrows_extend`), and a write if the written value is admitted or
excused (`Laid.narrows_write`).
-/

namespace SlotVm

/-! ## Narrowing -/

namespace ArrayKind

variable {k : ArrayKind} {v w : Value} {op : String}

/-- What an element of the kind can hold. -/
def Admits : ArrayKind → Value → Prop
  | boolean, .int n => n = 0 ∨ n = 1
  | byte, .int n => -128 ≤ n.toInt ∧ n.toInt ≤ 127
  | char, .int n => 0 ≤ n.toInt ∧ n.toInt ≤ 65535
  | short, .int n => -32768 ≤ n.toInt ∧ n.toInt ≤ 32767
  | int, .int _ => True
  | float, .float _ => True
  | reference, v => (v.isNull || v.isReference) = true
  | _, _ => False

theorem toInt8_of_range {n : Int32} (hlo : -128 ≤ n.toInt)
    (hhi : n.toInt ≤ 127) : n.toInt8.toInt32 = n := by
  rw [← Int32.toInt_inj, Int8.toInt_toInt32, Int32.toInt_toInt8]
  exact Int.bmod_eq_of_le (by omega) (by omega)

theorem toInt16_of_range {n : Int32} (hlo : -32768 ≤ n.toInt)
    (hhi : n.toInt ≤ 32767) : n.toInt16.toInt32 = n := by
  rw [← Int32.toInt_inj, Int16.toInt_toInt32, Int32.toInt_toInt16]
  exact Int.bmod_eq_of_le (by omega) (by omega)

/-- An integer without more than 16 bits keeps them. -/
theorem and_char_of_range {n : Int32} (hlo : 0 ≤ n.toInt)
    (hhi : n.toInt ≤ 65535) : n &&& 0xffff = n := by
  have hnat : n.toBitVec.toNat < 2 ^ 16 := by
    have hlt := n.toBitVec.isLt
    rw [← Int32.toInt_toBitVec, BitVec.toInt_eq_toNat_cond] at hlo hhi
    split at hhi <;> omega
  have hmask : (0xffff : Int32).toBitVec.toNat = 2 ^ 16 - 1 := by decide
  rw [← Int32.toBitVec_inj, ← BitVec.toNat_inj, Int32.toBitVec_and,
    BitVec.toNat_and, hmask, Nat.and_two_pow_sub_one_eq_mod,
    Nat.mod_eq_of_lt hnat]

/-- A narrowed value is admitted. -/
theorem narrow_admits (h : k.narrow op v = .ok w) : k.Admits w := by
  cases k with
  | boolean =>
    obtain ⟨n, -, h⟩ := bind_eq_ok h
    cases h
    have hrange := toInt_and_le n 1 (by decide)
    have hmask : (1 : Int32).toBitVec.toNat = 1 := by decide
    have hcases : (n &&& 1).toInt = 0 ∨ (n &&& 1).toInt = 1 := by omega
    exact hcases.imp Int32.toInt_inj.1 Int32.toInt_inj.1
  | byte =>
    obtain ⟨n, -, h⟩ := bind_eq_ok h
    cases h
    have hlo := n.toInt8.le_toInt
    have hhi := n.toInt8.toInt_lt
    simp only [Admits, Int8.toInt_toInt32]
    omega
  | char =>
    obtain ⟨n, -, h⟩ := bind_eq_ok h
    cases h
    have hrange := toInt_and_le n 0xffff (by decide)
    have hmask : (0xffff : Int32).toBitVec.toNat = 65535 := by decide
    unfold Admits
    omega
  | short =>
    obtain ⟨n, -, h⟩ := bind_eq_ok h
    cases h
    have hlo := n.toInt16.le_toInt
    have hhi := n.toInt16.toInt_lt
    simp only [Admits, Int16.toInt_toInt32]
    omega
  | int =>
    obtain ⟨n, -, h⟩ := bind_eq_ok h
    cases h
    trivial
  | float =>
    obtain ⟨x, -, h⟩ := bind_eq_ok h
    cases h
    trivial
  | reference =>
    unfold narrow at h
    simp only at h
    split at h
    · rename_i href
      cases h
      exact href
    · cases h

/-- Narrowing leaves what is admitted, and nothing else. -/
theorem admits_iff_narrow : k.Admits v ↔ ∀ op, k.narrow op v = .ok v := by
  refine ⟨?_, fun h => narrow_admits (h "")⟩
  intro h op
  cases k with
  | reference => exact if_pos h
  | boolean =>
    cases v with
    | int n =>
      rcases h with rfl | rfl
      · rfl
      · rfl
    | null | zero | float | ref | const => cases h
  | byte =>
    cases v with
    | int n => exact congrArg (Except.ok ∘ Value.int) (toInt8_of_range h.1 h.2)
    | null | zero | float | ref | const => cases h
  | char =>
    cases v with
    | int n => exact congrArg (Except.ok ∘ Value.int) (and_char_of_range h.1 h.2)
    | null | zero | float | ref | const => cases h
  | short =>
    cases v with
    | int n => exact congrArg (Except.ok ∘ Value.int) (toInt16_of_range h.1 h.2)
    | null | zero | float | ref | const => cases h
  | int =>
    cases v with
    | int n => rfl
    | null | zero | float | ref | const => cases h
  | float =>
    cases v with
    | float x => rfl
    | null | zero | int | ref | const => cases h

/-- A fresh element is admitted. -/
theorem zeroValue_admits (k : ArrayKind) : k.Admits k.zeroValue := by
  cases k with
  | boolean => exact .inl rfl
  | byte | char | short => exact ⟨by decide, by decide⟩
  | int | float => trivial
  | reference => rfl

end ArrayKind

/-! ## Elements -/

/-- The object is an array of the kind, and its element at the position holds
the value. -/
def Heap.Element (h : Heap) (r : UInt16) (k : ArrayKind) (i : Nat)
    (v : Value) : Prop :=
  (∃ entry, h.header r = .ok entry ∧ entry.kind = .array k) ∧
    h.load r i = .ok v

/-- The same for a list of objects. -/
def ObjectList.Element (a : ObjectList) (r : UInt16) (k : ArrayKind) (i : Nat)
    (v : Value) : Prop :=
  ∃ slots, a.get? r = some (.array k, slots) ∧ slots[i]? = some v

namespace Heap

open SlotVm.Action

variable {h h' h'' : Heap} {r : UInt16} {k : ArrayKind} {i : Nat} {v : Value}
variable {X X' : UInt16 → Nat → Value → Prop} {entry : Header}

/-- An element of a heap is one of the list that it stands for. -/
theorem Laid.element_iff (hl : h.Laid) :
    h.Element r k i v ↔ h.view.Element r k i v := by
  constructor
  · rintro ⟨⟨entry, hheader, hkind⟩, hload⟩
    have hentry := header_ok hheader
    obtain ⟨entry', hentry', hi, hv⟩ := load_ok hl hload
    cases hentry.symm.trans hentry'
    refine ⟨h.contents entry, ?_, ?_⟩
    · rw [view_get?, hentry, ← hkind]
      rfl
    · rw [contents_getElem? hi]
      exact hv
  · rintro ⟨slots, hget, hv⟩
    obtain ⟨entry, hentry, hkind, rfl⟩ := entry_of_view hget
    exact ⟨⟨entry, header_of_entry hentry, hkind⟩, hl.load_of_contents hentry hv⟩

/-- The second heap has come from the first one, and each element that it has
besides is admitted or excused. -/
structure Narrows (X : UInt16 → Nat → Value → Prop) (h h' : Heap) : Prop where
  laid : h'.Laid
  elements : ∀ r k i v, h'.Element r k i v →
    k.Admits v ∨ h.Element r k i v ∨ X r i v

theorem Narrows.refl (hl : h.Laid) : h.Narrows X h :=
  ⟨hl, fun _ _ _ _ hv => .inr (.inl hv)⟩

theorem Narrows.trans (h₁ : h.Narrows X h') (h₂ : h'.Narrows X h'') :
    h.Narrows X h'' where
  laid := h₂.laid
  elements := by
    intro r k i v hv
    rcases h₂.elements r k i v hv with hadmits | hold | hexcused
    · exact .inl hadmits
    · exact h₁.elements r k i v hold
    · exact .inr (.inr hexcused)

/-- More may be excused. -/
theorem Narrows.mono (hn : h.Narrows X h')
    (hX : ∀ r i v, X r i v → X' r i v) : h.Narrows X' h' where
  laid := hn.laid
  elements r k i v hv :=
    (hn.elements r k i v hv).imp_right fun ho => ho.imp_right (hX r i v)

/-- A request that is refused. -/
theorem Laid.narrows_refuse (hl : h.Laid) : h.Narrows X h.refuse :=
  ⟨hl.refuse, fun _ _ _ _ hv => .inr (.inl hv)⟩

/-- A new object. -/
theorem Laid.narrows_extend (hl : h.Laid) {kind : ObjectKind}
    {contents : Array Value} (hcount : h.objects.size < maxObjects)
    (hfree : contents.size ≤ h.free)
    (hadmits : ∀ k, kind = .array k → ∀ v ∈ contents, k.Admits v) :
    h.Narrows X (h.extend kind contents) where
  laid := hl.extend kind hcount hfree
  elements := by
    intro r k i v hv
    rw [(hl.extend kind hcount hfree).element_iff,
      hl.view_extend kind hfree] at hv
    obtain ⟨slots, hget, hslot⟩ := hv
    rw [hl.element_iff]
    rw [ObjectList.get?, List.getElem?_append] at hget
    split at hget
    · exact .inr (.inl ⟨slots, hget, hslot⟩)
    · obtain ⟨hkind, rfl⟩ := Prod.mk.inj (List.mem_singleton.1
        (List.mem_of_getElem? hget))
      exact .inl (hadmits k hkind.symm v
        (Array.mem_toList_iff.1 (List.mem_of_getElem? hslot)))

/-- A write to a slot. -/
theorem Laid.narrows_write (hl : h.Laid)
    (hentry : h.objects[r.toNat]? = some entry) (hi : i < entry.len)
    (hv : ∀ k, entry.kind = .array k → k.Admits v ∨ X r i v) :
    h.Narrows X (h.write (entry.offset + i) v) where
  laid := hl.write hentry hi v
  elements := by
    intro r' k j w hw
    rw [(hl.write hentry hi v).element_iff, hl.view_write v hentry hi] at hw
    obtain ⟨slots, hget, hslot⟩ := hw
    rw [hl.element_iff]
    by_cases hr : r' = r
    · obtain rfl := hr
      have hold : h.view.get? r' = some (entry.kind, h.contents entry) := by
        rw [view_get?, hentry]
        rfl
      rw [ObjectList.get?_set_self hold] at hget
      obtain ⟨hkind, rfl⟩ := Prod.mk.inj (Option.some.inj hget)
      rw [List.getElem?_set] at hslot
      split at hslot
      · rename_i hij
        obtain rfl := hij
        split at hslot
        · cases hslot
          exact (hv k hkind).imp_right .inr
        · cases hslot
      · rw [hkind] at hold
        exact .inr (.inl ⟨_, hold, hslot⟩)
    · rw [ObjectList.get?_set_ne hr] at hget
      exact .inr (.inl ⟨slots, hget, hslot⟩)

end Heap

end SlotVm
