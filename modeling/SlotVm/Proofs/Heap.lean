import SlotVm.Heap.Basic
import SlotVm.Proofs.Action
import SlotVm.Proofs.Arena

/-!
# The layout of the heap

Objects lie end to end in the arena: the offset of an object is the sum of
the lengths in front of it, and behind the last one nothing has been written.
`Heap.Laid` states this with the bounds of the table, and every operation
keeps it.

There are three groups of lemmas.

* Handles.  `Heap.Owns` says that a slot belongs to an object, and
  `Laid.owns_unique` that it belongs to one object only.
* What an allocation does.  `allocateWith` is an allocation that gives the
  contents of the new object at once, and every other one is equal to it on a
  heap that is laid out (`Laid.allocateKind_eq`).
* What reading and writing a slot does (`store_ends`, `Laid.write`,
  `load_ok`).
-/

namespace SlotVm.Heap

open SlotVm.Action

variable {h : Heap} {r r' : UInt16} {entry other : Header} {i j k : Nat}
variable {v : Value} {e : Fault}

/-- The number of slots that the objects take together. -/
def extent : List Header → Nat
  | [] => 0
  | entry :: rest => entry.len + extent rest

/-- The objects fill the used part of the arena in the order of the table,
and the rest has never been written. -/
structure Laid (h : Heap) : Prop where
  offset_eq : ∀ k entry, h.objects[k]? = some entry →
    entry.offset = extent (h.objects.toList.take k)
  used_eq : h.used = extent h.objects.toList
  count_le : h.objects.size ≤ maxObjects
  clean : h.arena.Clean

theorem Laid.used_le (hl : h.Laid) : h.used ≤ h.capacity := hl.clean.top_le

theorem Laid.size_slots (hl : h.Laid) : h.arena.slots.size = h.used :=
  Arena.size_slots hl.clean.top_le

/-- The slot of the arena belongs to the object. -/
def Owns (h : Heap) (handle : UInt16) (slot : Nat) : Prop :=
  ∃ entry, h.objects[handle.toNat]? = some entry ∧
    entry.offset ≤ slot ∧ slot < entry.offset + entry.len

/-! ## Handles -/

theorem contains_iff :
    h.Contains r ↔ ∃ entry, h.objects[r.toNat]? = some entry := by
  unfold Contains
  constructor
  · intro hr
    exact ⟨_, Array.getElem?_eq_getElem hr⟩
  · intro hr
    obtain ⟨entry, hentry⟩ := hr
    exact (Array.getElem?_eq_some_iff.1 hentry).1

/-- A handle of the heap has a header. -/
theorem header_of_entry (hentry : h.objects[r.toNat]? = some entry) :
    h.header r = .ok entry := by
  rw [header, hentry]

theorem header_ok (hh : h.header r = .ok entry) :
    h.objects[r.toNat]? = some entry := by
  unfold header at hh
  split at hh
  · rename_i entry' hentry
    cases hh
    exact hentry
  · cases hh

/-- Only a handle that the heap does not have is without header. -/
theorem header_error (hh : h.header r = .error e) :
    ¬ h.Contains r ∧ e = .invalidReference r := by
  unfold header at hh
  split at hh
  · cases hh
  · rename_i hnone
    cases hh
    refine ⟨?_, rfl⟩
    rw [contains_iff, hnone]
    intro hr
    obtain ⟨entry, hentry⟩ := hr
    cases hentry

theorem len_of_entry (hentry : h.objects[r.toNat]? = some entry) :
    h.len r = .ok entry.len := by
  rw [len, header_of_entry hentry]
  rfl

/-! ## The order of the objects -/

theorem extent_append (objects added : List Header) :
    extent (objects ++ added) = extent objects + extent added := by
  induction objects with
  | nil => exact (Nat.zero_add _).symm
  | cons first rest ih =>
    rw [List.cons_append, extent, extent, ih, Nat.add_assoc]

/-- The objects in front of an object, and that object. -/
theorem extent_take_succ (hk : h.objects[k]? = some entry) :
    extent (h.objects.toList.take (k + 1)) =
      extent (h.objects.toList.take k) + entry.len := by
  have hk' : h.objects.toList[k]? = some entry := by
    rw [Array.getElem?_toList]
    exact hk
  rw [List.take_add_one, hk', extent_append]
  rfl

/-- An object ends where the objects behind it begin. -/
theorem Laid.end_le (hl : h.Laid) (hj : h.objects[j]? = some entry)
    (hk : h.objects[k]? = some other) (hjk : j < k) :
    entry.offset + entry.len ≤ other.offset := by
  have hsplit : h.objects.toList.take k =
      h.objects.toList.take (j + 1) ++
        (h.objects.toList.drop (j + 1)).take (k - (j + 1)) := by
    rw [← List.take_add]
    congr 1
    omega
  rw [hl.offset_eq j entry hj, hl.offset_eq k other hk, ← extent_take_succ hj,
    hsplit, extent_append]
  exact Nat.le_add_right _ _

/-- An object lies inside the used part of the arena. -/
theorem Laid.end_le_used (hl : h.Laid)
    (hk : h.objects[k]? = some entry) :
    entry.offset + entry.len ≤ h.used := by
  have htotal : extent h.objects.toList =
      extent (h.objects.toList.take (k + 1)) +
        extent (h.objects.toList.drop (k + 1)) := by
    rw [← extent_append, List.take_append_drop]
  rw [hl.offset_eq k entry hk, hl.used_eq, ← extent_take_succ hk, htotal]
  exact Nat.le_add_right _ _

/-- A slot belongs to one object only. -/
theorem Laid.owns_unique (hl : h.Laid) (hr : h.Owns r i)
    (hr' : h.Owns r' i) : r = r' := by
  obtain ⟨entry, hentry, hlo, hhi⟩ := hr
  obtain ⟨other, hother, hlo', hhi'⟩ := hr'
  rcases Nat.lt_trichotomy r.toNat r'.toNat with hlt | heq | hlt
  · have := hl.end_le hentry hother hlt
    omega
  · exact UInt16.toNat_inj.1 heq
  · have := hl.end_le hother hentry hlt
    omega

/-! ## Allocation -/

/-- An empty heap is laid out. -/
theorem laid_empty (bytes word : Nat) : (empty bytes word).Laid where
  offset_eq := by
    intro k entry hentry
    simp [empty] at hentry
  used_eq := rfl
  count_le := by simp [empty, maxObjects]
  clean := Arena.clean_empty _

theorem slots_empty (bytes word : Nat) :
    (empty bytes word).arena.slots = #[] :=
  Array.eq_empty_of_size_eq_zero (laid_empty bytes word).size_slots

theorem capacity_empty (bytes word : Nat) :
    (empty bytes word).capacity = bytes / word :=
  Array.size_replicate

/-- The heap with a new object behind all others that holds the given
values. -/
def extend (h : Heap) (kind : ObjectKind) (contents : Array Value) : Heap :=
  h.enter (h.arena.extend contents) ⟨h.used, contents.size, kind⟩

@[simp]
theorem objects_extend (h : Heap) (kind : ObjectKind)
    (contents : Array Value) : (h.extend kind contents).objects =
      h.objects.push ⟨h.used, contents.size, kind⟩ := rfl

theorem used_extend (h : Heap) (kind : ObjectKind) (contents : Array Value) :
    (h.extend kind contents).used = h.used + contents.size := rfl

theorem Laid.slots_extend (hl : h.Laid) (kind : ObjectKind)
    (contents : Array Value) :
    (h.extend kind contents).arena.slots = h.arena.slots ++ contents :=
  Arena.slots_extend hl.clean.top_le contents

theorem Laid.capacity_extend (hl : h.Laid) (kind : ObjectKind)
    {contents : Array Value} (hfree : contents.size ≤ h.free) :
    (h.extend kind contents).capacity = h.capacity :=
  Arena.capacity_extend hl.clean.top_le hfree

/-- A new object does not move the others. -/
theorem extend_getElem? (kind : ObjectKind) (contents : Array Value)
    (hentry : h.objects[k]? = some entry) :
    (h.extend kind contents).objects[k]? = some entry := by
  have hlt := (Array.getElem?_eq_some_iff.1 hentry).1
  rw [objects_extend, Array.getElem?_push_lt hlt,
    ← Array.getElem?_eq_getElem hlt, hentry]

/-- A new object begins where the used part of the arena ended. -/
theorem Laid.extend (hl : h.Laid) (kind : ObjectKind)
    {contents : Array Value} (hcount : h.objects.size < maxObjects)
    (hfree : contents.size ≤ h.free) : (h.extend kind contents).Laid where
  offset_eq := by
    intro k entry hentry
    rw [objects_extend, Array.getElem?_push] at hentry
    rw [objects_extend, Array.toList_push]
    split at hentry
    · rename_i hk
      cases hentry
      rw [hk, List.take_append_of_le_length (by simp),
        List.take_of_length_le (by simp), ← hl.used_eq]
    · have hlt := (Array.getElem?_eq_some_iff.1 hentry).1
      rw [hl.offset_eq k entry hentry, List.take_append_of_le_length]
      rw [Array.length_toList]
      omega
  used_eq := by
    rw [used_extend, objects_extend, Array.toList_push, extent_append,
      hl.used_eq]
    rfl
  count_le := by
    rw [objects_extend, Array.size_push]
    exact hcount
  clean := hl.clean.extend hfree

theorem Laid.refuse (hl : h.Laid) : h.refuse.Laid :=
  ⟨hl.offset_eq, hl.used_eq, hl.count_le, hl.clean⟩

/-- Allocates an object that holds the given values. -/
def allocateWith (kind : ObjectKind) (contents : Array Value) :
    Action Heap UInt16 := fun h =>
  if h.objects.size < maxObjects ∧ contents.size ≤ h.free then
    .ok (UInt16.ofNat h.objects.size) (h.extend kind contents)
  else
    .error (.heapExhausted contents.size h.free) h.refuse

/-- What a slot of a new object holds. -/
def freshValue (kind : ObjectKind) (zeroed : Bool) : Value :=
  if zeroed then kind.zeroValue else .null

/-- An allocation gives an object that holds the zero value of its kind in
every slot, or nulls if it is not zeroed. -/
theorem Laid.allocateKind_eq (hl : h.Laid) (kind : ObjectKind)
    (zeroed : Bool) (count : Nat) :
    allocateKind kind zeroed count h =
      allocateWith kind (Array.replicate count (freshValue kind zeroed)) h := by
  unfold allocateKind allocateWith
  rw [Array.size_replicate]
  by_cases hfull : maxObjects ≤ h.objects.size
  · rw [if_pos hfull, if_neg fun hroom => Nat.not_lt.2 hfull hroom.1]
  · rw [if_neg hfull]
    by_cases hfree : count ≤ h.arena.remaining
    · rw [Arena.allocate?_of_le hfree, if_pos ⟨Nat.not_le.1 hfull, hfree⟩]
      unfold Heap.extend freshValue
      rw [Array.size_replicate]
      cases zeroed with
      | true =>
        simp only [if_true]
        rw [hl.clean.fill_handedOut hfree]
        rfl
      | false =>
        simp only [Bool.false_eq_true, if_false]
        rw [hl.clean.handedOut hfree]
        rfl
    · rw [Arena.allocate?_of_lt (Nat.not_le.1 hfree),
        if_neg fun hroom => hfree hroom.2]

/-- An allocation adds an object with the given contents, or only counts as
refused if there is no room. -/
theorem allocateWith_ends (h : Heap) (kind : ObjectKind)
    (contents : Array Value) :
    Ends (allocateWith kind contents) h
      (fun r t => h.objects.size < maxObjects ∧ contents.size ≤ h.free ∧
        r.toNat = h.objects.size ∧ t = h.extend kind contents)
      (fun e t => t = h.refuse ∧ e = .heapExhausted contents.size h.free ∧
        ¬ (h.objects.size < maxObjects ∧ contents.size ≤ h.free)) := by
  unfold Ends allocateWith
  by_cases hroom : h.objects.size < maxObjects ∧ contents.size ≤ h.free
  · rw [if_pos hroom]
    refine ⟨hroom.1, hroom.2, ?_, rfl⟩
    have hlt := hroom.1
    unfold maxObjects at hlt
    rw [UInt16.toNat_ofNat_of_lt' hlt]
  · rw [if_neg hroom]
    exact ⟨rfl, rfl, hroom⟩

/-- An allocation adds an object that holds the same value everywhere, or only
counts as refused if there is no room. -/
theorem Laid.allocateKind_ends (hl : h.Laid) (kind : ObjectKind)
    (zeroed : Bool) (count : Nat) :
    Ends (allocateKind kind zeroed count) h
      (fun r t => h.objects.size < maxObjects ∧ count ≤ h.free ∧
        r.toNat = h.objects.size ∧
        t = h.extend kind (Array.replicate count (freshValue kind zeroed)))
      (fun e t => t = h.refuse ∧ e = .heapExhausted count h.free ∧
        ¬ (h.objects.size < maxObjects ∧ count ≤ h.free)) := by
  have hends := allocateWith_ends h kind
    (Array.replicate count (freshValue kind zeroed))
  rw [Array.size_replicate] at hends
  exact Ends.of_eq (hl.allocateKind_eq kind zeroed count) hends

/-! ## Access -/

theorem slots_write (h : Heap) (slot : Nat) (v : Value) :
    (h.write slot v).arena.slots = h.arena.slots.setIfInBounds slot v :=
  Arena.slots_write _ _ _

@[simp]
theorem capacity_write (h : Heap) (slot : Nat) (v : Value) :
    (h.write slot v).capacity = h.capacity :=
  Arena.capacity_write _ _ _

/-- Writing a slot of an object keeps the layout. -/
theorem Laid.write (hl : h.Laid) (hentry : h.objects[k]? = some entry)
    (hi : i < entry.len) (v : Value) :
    (h.write (entry.offset + i) v).Laid where
  offset_eq := hl.offset_eq
  used_eq := hl.used_eq
  count_le := hl.count_le
  clean := by
    have hend := hl.end_le_used hentry
    exact hl.clean.write (Nat.lt_of_lt_of_le (by omega) hend) v

/-- A store writes one slot of an object that the heap has. -/
theorem store_ends (h : Heap) (r : UInt16) (index : Nat) (v : Value) :
    Ends (store r index v) h
      (fun _ t => ∃ entry, h.objects[r.toNat]? = some entry ∧
        index < entry.len ∧ t = h.write (entry.offset + index) v)
      (fun e t => t = h ∧
        (¬ h.Contains r ∧ e = .invalidReference r ∨
          ∃ entry, h.objects[r.toNat]? = some entry ∧ entry.len ≤ index ∧
            e = .slotOutOfBounds index entry.len)) := by
  unfold Ends store
  cases hh : h.header r with
  | error e => exact ⟨rfl, .inl (header_error hh)⟩
  | ok entry =>
    by_cases hindex : index < entry.len
    · simp only [if_pos hindex]
      exact ⟨entry, header_ok hh, hindex, rfl⟩
    · simp only [if_neg hindex]
      refine ⟨trivial, .inr ⟨entry, header_ok hh, by omega, rfl⟩⟩

/-- What is read in a slot of an object. -/
theorem Laid.load_of_entry (hl : h.Laid)
    (hentry : h.objects[r.toNat]? = some entry) (hi : i < entry.len)
    (hv : h.arena.slots[entry.offset + i]? = some v) :
    h.load r i = .ok v := by
  have hend := hl.end_le_used hentry
  unfold used Arena.used at hend
  rw [Arena.slots_getElem? (by omega)] at hv
  rw [load, header_of_entry hentry]
  simp only [bind, Except.bind, if_pos hi, Array.getD_eq_getD_getElem?, hv]
  rfl

/-- What is read off an object. -/
theorem Laid.slots_of_entry (hl : h.Laid)
    (hentry : h.objects[r.toNat]? = some entry) :
    h.slots r = .ok
      (h.arena.slots.extract entry.offset (entry.offset + entry.len)) := by
  rw [Heap.slots, header_of_entry hentry,
    Arena.slots_extract (hl.end_le_used hentry)]
  rfl

/-- A load reads a slot of an object that the heap has. -/
theorem load_ok (hl : h.Laid) (hload : h.load r i = .ok v) :
    ∃ entry, h.objects[r.toNat]? = some entry ∧ i < entry.len ∧
      h.arena.slots[entry.offset + i]? = some v := by
  unfold load at hload
  cases hh : h.header r with
  | error e =>
    rw [hh] at hload
    cases hload
  | ok entry =>
    have hentry := header_ok hh
    have hend := hl.end_le_used hentry
    simp only [hh, Except.bind, bind] at hload
    split at hload
    · rename_i hi
      have hslot : entry.offset + i < h.arena.slots.size := by
        rw [hl.size_slots]
        omega
      refine ⟨entry, hentry, hi, ?_⟩
      have hv := Array.getElem?_eq_getElem hslot
      have hread := hl.load_of_entry hentry hi hv
      rw [load, hh] at hread
      simp only [bind, Except.bind, if_pos hi] at hread
      rw [hv]
      cases hload.symm.trans hread
      rfl
    · cases hload

/-- The faults of a load. -/
theorem load_error (hload : h.load r i = .error e) :
    ¬ h.Contains r ∧ e = .invalidReference r ∨
      ∃ entry, h.objects[r.toNat]? = some entry ∧ entry.len ≤ i ∧
        e = .slotOutOfBounds i entry.len := by
  unfold load at hload
  cases hh : h.header r with
  | error e' =>
    rw [hh] at hload
    cases hload
    exact .inl (header_error hh)
  | ok entry =>
    simp only [hh, Except.bind, bind] at hload
    split at hload
    · cases hload
    · rename_i hi
      cases hload
      exact .inr ⟨entry, header_ok hh, by omega, rfl⟩

end SlotVm.Heap
