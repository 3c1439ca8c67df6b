import SlotVm.Proofs.Heap
import SlotVm.Word

/-!
# The heap as a list of objects

An `ObjectList` is what a heap is for its users: a capacity in slots and a
list of objects, each one a kind with its own list of values.  An object is
added behind all others and never moves, a store sets one position of one
list, and nothing else ever changes.  There are no offsets, so no two objects
can overlap.

`Heap.view` reads a heap as such a list, and `Request` is what can be asked
of a heap.  The theorem of this module is that any row of requests gets the
same answers from a heap and from the list that it stands for.

There are four groups of lemmas.

* The slots of one object (`Heap.contents`), and what an allocation or a
  write does to them.
* The view: one equation for each operation (`view_extend`, `view_write`).
* Reading.  `Heap.Shows` says that every read of a heap is the read of a
  list, and `Laid.shows_view` that a heap shows its view.
* One request and a row of them.  `StandsFor.onHeap` is the square between a
  heap and a list, with what a fault leaves behind, and `StandsFor.serve`
  follows by induction on the row.
-/

namespace SlotVm

/-! ## Lists of objects -/

/-- A capacity in slots, and objects with their kinds and slots. -/
structure ObjectList where
  capacity : Nat
  objects : List (ObjectKind × List Value)

namespace ObjectList

/-- No objects. -/
def empty (capacity : Nat) : ObjectList := ⟨capacity, []⟩

/-- Slots that objects take together. -/
def slotCount : List (ObjectKind × List Value) → Nat
  | [] => 0
  | object :: rest => object.2.length + slotCount rest

/-- Slots of the largest of some objects. -/
def largest : List (ObjectKind × List Value) → Nat
  | [] => 0
  | object :: rest => max object.2.length (largest rest)

/-- Slots that are taken. -/
def used (a : ObjectList) : Nat := slotCount a.objects

/-- The object with a handle. -/
def get? (a : ObjectList) (handle : UInt16) :
    Option (ObjectKind × List Value) :=
  a.objects[handle.toNat]?

/-- Adds an object if there is room for it and for its handle. -/
def append (kind : ObjectKind) (slots : List Value) :
    Action ObjectList UInt16 := fun a =>
  if a.used + slots.length ≤ a.capacity ∧ a.objects.length < 65536 then
    .ok (UInt16.ofNat a.objects.length)
      { a with objects := a.objects ++ [(kind, slots)] }
  else
    .error (.heapExhausted slots.length (a.capacity - a.used)) a

/-- Sets one slot of an object. -/
def set (handle : UInt16) (index : Nat) (v : Value) :
    Action ObjectList Unit := fun a =>
  match a.get? handle with
  | none => .error (.invalidReference handle) a
  | some (kind, slots) =>
      if index < slots.length then
        .ok ()
          { a with
            objects :=
              a.objects.set handle.toNat (kind, slots.set index v) }
      else
        .error (.slotOutOfBounds index slots.length) a

theorem slotCount_append (objects added : List (ObjectKind × List Value)) :
    slotCount (objects ++ added) = slotCount objects + slotCount added := by
  induction objects with
  | nil => exact (Nat.zero_add _).symm
  | cons first rest ih =>
    rw [List.cons_append, slotCount, slotCount, ih, Nat.add_assoc]

theorem largest_concat (objects : List (ObjectKind × List Value))
    (object : ObjectKind × List Value) :
    largest (objects ++ [object]) =
      max (largest objects) object.2.length := by
  induction objects with
  | nil => exact Nat.max_comm _ _
  | cons first rest ih =>
    rw [List.cons_append, largest, largest, ih, Nat.max_assoc]

/-- Another object of the same length in the place of one. -/
theorem map_length_set {objects : List (ObjectKind × List Value)} {k : Nat}
    {object : ObjectKind × List Value} (hk : objects[k]? = some object)
    (object' : ObjectKind × List Value)
    (hlength : object'.2.length = object.2.length) :
    (objects.set k object').map (·.2.length) =
      objects.map (·.2.length) := by
  apply List.ext_getElem?
  intro j
  rw [List.getElem?_map, List.getElem?_map, List.getElem?_set]
  split
  · rename_i hj
    subst hj
    rw [if_pos (List.getElem?_eq_some_iff.1 hk).1, hk, Option.map_some,
      Option.map_some, hlength]
  · rfl

/-- The lengths of objects fix the slots that they take. -/
theorem slotCount_congr {objects objects' : List (ObjectKind × List Value)}
    (h : objects'.map (·.2.length) = objects.map (·.2.length)) :
    slotCount objects' = slotCount objects ∧
      largest objects' = largest objects := by
  induction objects generalizing objects' with
  | nil =>
    rw [List.map_nil, List.map_eq_nil_iff] at h
    rw [h]
    exact ⟨rfl, rfl⟩
  | cons first rest ih =>
    cases objects' with
    | nil => cases h
    | cons first' rest' =>
      obtain ⟨hfirst, hrest⟩ := List.cons.inj h
      obtain ⟨hcount, hlargest⟩ := ih hrest
      simp only at hfirst
      rw [slotCount, slotCount, largest, largest, hfirst, hcount, hlargest]
      exact ⟨rfl, rfl⟩

end ObjectList

/-! ## Requests -/

/-- What can be asked of a heap. -/
inductive Request where
  /-- An untyped block. -/
  | block (zeroed : Bool) (count : Nat)
  | object (classId : UInt16) (fields : Nat)
  | array (element : ArrayKind) (len : Nat)
  | store (handle : UInt16) (index : Nat) (v : Value)

namespace Request

/-- Answers with the handle of a new object. -/
def handleOf {σ : Type} (allocation : Action σ UInt16) :
    Action σ (Option UInt16) := do
  return some (← allocation)

/-- Asks a heap.  The answer to an allocation is a handle. -/
def onHeap : Request → Action Heap (Option UInt16)
  | block zeroed count => handleOf (Heap.allocate zeroed count)
  | object classId fields => handleOf (Heap.allocateObject classId fields)
  | array element len => handleOf (Heap.allocateArray element len)
  | store handle index v => do
      Heap.store handle index v
      return none

/-- A new object of a kind with the same value in every slot. -/
def filled (kind : ObjectKind) (count : Nat) (v : Value) :
    Action ObjectList (Option UInt16) :=
  handleOf (ObjectList.append kind (List.replicate count v))

/-- Asks a list of objects.  Fresh slots hold the zero value of their kind,
but those of a block that is not zeroed hold null. -/
def onObjects : Request → Action ObjectList (Option UInt16)
  | block zeroed count =>
      filled .chunk count
        (if zeroed then ObjectKind.chunk.zeroValue else .null)
  | object classId fields =>
      filled (.object classId) fields (ObjectKind.object classId).zeroValue
  | array element len =>
      filled (.array element) len (ObjectKind.array element).zeroValue
  | store handle index v => do
      ObjectList.set handle index v
      return none

/-- Makes requests one after another, whatever the answers are. -/
def serve {σ : Type} (ask : Request → Action σ (Option UInt16)) :
    List Request → σ → List (Except Fault (Option UInt16)) × σ
  | [], s => ([], s)
  | request :: rest, s =>
      match ask request s with
      | .ok answer t =>
          let (answers, last) := serve ask rest t
          (.ok answer :: answers, last)
      | .error e t =>
          let (answers, last) := serve ask rest t
          (.error e :: answers, last)

end Request

/-- The answer says that a request for slots was refused. -/
def refused : Except Fault (Option UInt16) → Bool
  | .error (.heapExhausted ..) => true
  | _ => false

namespace Heap

open SlotVm.Action

variable {h : Heap} {r : UInt16} {entry other : Header} {k : Nat}

/-! ## The slots of an object -/

/-- The values in the slots of an object. -/
def contents (h : Heap) (entry : Header) : List Value :=
  (h.arena.slots.toList.drop entry.offset).take entry.len

/-- The heap as a list of objects. -/
def view (h : Heap) : ObjectList where
  capacity := h.capacity
  objects := h.objects.toList.map fun entry => (entry.kind, h.contents entry)

theorem Laid.length_contents (hl : h.Laid) (hk : h.objects[k]? = some entry) :
    (h.contents entry).length = entry.len := by
  have hend := hl.end_le_used hk
  have hsize := hl.size_slots
  simp only [contents, List.length_take, List.length_drop,
    Array.length_toList]
  omega

/-- What a slot holds. -/
theorem contents_getElem? {i : Nat} (hi : i < entry.len) :
    (h.contents entry)[i]? = h.arena.slots[entry.offset + i]? := by
  rw [contents, List.getElem?_take_of_lt hi, List.getElem?_drop,
    Array.getElem?_toList]

/-- A new object leaves the slots of the others. -/
theorem Laid.contents_extend (hl : h.Laid) (kind : ObjectKind)
    (added : Array Value) (hk : h.objects[k]? = some entry) :
    (h.extend kind added).contents entry = h.contents entry := by
  have hend := hl.end_le_used hk
  have hsize := hl.size_slots
  have hoffset : entry.offset ≤ h.arena.slots.toList.length := by
    rw [Array.length_toList]
    omega
  have hlen : entry.len ≤
      (h.arena.slots.toList.drop entry.offset).length := by
    rw [List.length_drop, Array.length_toList]
    omega
  unfold contents
  rw [hl.slots_extend, Array.toList_append,
    List.drop_append_of_le_length hoffset, List.take_append_of_le_length hlen]

/-- A new object holds what it was given. -/
theorem Laid.contents_extend_new (hl : h.Laid) (kind : ObjectKind)
    (added : Array Value) :
    (h.extend kind added).contents ⟨h.used, added.size, kind⟩ =
      added.toList := by
  have hused : h.arena.slots.toList.length = h.used := by
    rw [Array.length_toList, hl.size_slots]
  unfold contents
  rw [hl.slots_extend, Array.toList_append, List.drop_left' hused,
    ← Array.length_toList, List.take_length]

/-- A write to a slot of an object sets it there. -/
theorem contents_write_self (h : Heap) (entry : Header) (index : Nat)
    (v : Value) :
    (h.write (entry.offset + index) v).contents entry =
      (h.contents entry).set index v := by
  rw [contents, slots_write, Array.toList_setIfInBounds, List.drop_set,
    if_neg (by omega), Nat.add_sub_cancel_left, List.take_set, contents]

/-- A write outside of an object leaves its slots. -/
theorem contents_write_other {slot : Nat} (v : Value)
    (hslot : slot < entry.offset ∨ entry.offset + entry.len ≤ slot) :
    (h.write slot v).contents entry = h.contents entry := by
  rw [contents, slots_write, Array.toList_setIfInBounds, contents]
  rcases hslot with hbefore | hbehind
  · rw [List.drop_set, if_pos hbefore]
  · rw [List.drop_set, if_neg (by omega), List.take_set,
      List.set_eq_of_length_le]
    rw [List.length_take]
    omega

/-! ## The view -/

theorem view_get? (h : Heap) (r : UInt16) :
    h.view.get? r =
      (h.objects[r.toNat]?).map fun entry =>
        (entry.kind, h.contents entry) := by
  simp [view, ObjectList.get?]

/-- A handle that names nothing in the list is none of the heap. -/
theorem not_contains_of_view {r : UInt16} (hr : h.view.get? r = none) :
    ¬ h.Contains r := by
  rw [view_get?, Option.map_eq_none_iff] at hr
  rw [contains_iff, hr]
  intro hentry
  obtain ⟨entry, hentry⟩ := hentry
  cases hentry

theorem view_empty (bytes word : Nat) :
    (empty bytes word).view = .empty (bytes / word) := by
  rw [view, capacity_empty]
  rfl

/-- Objects of the view take as many slots as their entries say. -/
theorem slotCount_contents {objects : List Header}
    (hlen : ∀ entry ∈ objects, (h.contents entry).length = entry.len) :
    ObjectList.slotCount
        (objects.map fun entry => (entry.kind, h.contents entry)) =
      extent objects := by
  induction objects with
  | nil => rfl
  | cons first rest ih =>
    rw [List.map_cons, ObjectList.slotCount, extent,
      ih fun entry hentry => hlen entry (List.mem_cons_of_mem _ hentry)]
    rw [hlen first List.mem_cons_self]

/-- The objects of the view take the slots that are handed out. -/
theorem Laid.used_view (hl : h.Laid) : h.view.used = h.used := by
  rw [ObjectList.used, view, slotCount_contents, ← hl.used_eq]
  intro entry hentry
  obtain ⟨k, hk⟩ := List.getElem?_of_mem hentry
  rw [Array.getElem?_toList] at hk
  exact hl.length_contents hk

/-- An allocation adds an object to the view. -/
theorem Laid.view_extend (hl : h.Laid) (kind : ObjectKind)
    {added : Array Value} (hfree : added.size ≤ h.free) :
    (h.extend kind added).view =
      { h.view with
        objects := h.view.objects ++ [(kind, added.toList)] } := by
  have hold : h.objects.toList.map
        (fun entry => (entry.kind, (h.extend kind added).contents entry)) =
      h.view.objects := by
    rw [view]
    apply List.map_congr_left
    intro entry hentry
    obtain ⟨k, hk⟩ := List.getElem?_of_mem hentry
    rw [Array.getElem?_toList] at hk
    rw [hl.contents_extend kind added hk]
  have hobjects : (h.extend kind added).objects.toList =
      h.objects.toList ++ [⟨h.used, added.size, kind⟩] :=
    Array.toList_push
  rw [view, hobjects, List.map_append, hold, List.map_singleton,
    hl.contents_extend_new, hl.capacity_extend kind hfree]
  rfl

/-- A store sets one slot of one object of the view. -/
theorem Laid.view_write (hl : h.Laid) {index : Nat} (v : Value)
    (hr : h.objects[r.toNat]? = some entry) (hindex : index < entry.len) :
    (h.write (entry.offset + index) v).view =
      { h.view with
        objects := h.view.objects.set r.toNat
          (entry.kind, (h.contents entry).set index v) } := by
  have hobjects : (h.write (entry.offset + index) v).objects = h.objects :=
    rfl
  simp only [view, capacity_write, hobjects]
  congr 1
  apply List.ext_getElem?
  intro k
  rw [List.getElem?_set, List.getElem?_map, List.getElem?_map,
    List.length_map, Array.length_toList, Array.getElem?_toList]
  split
  · rename_i hk
    subst hk
    have hlt := (Array.getElem?_eq_some_iff.1 hr).1
    rw [if_pos hlt, hr, Option.map_some, contents_write_self]
  · rename_i hne
    cases hk : h.objects[k]? with
    | none => rfl
    | some other =>
      rw [Option.map_some, Option.map_some, contents_write_other]
      rcases Nat.lt_or_gt_of_ne hne with hlt | hlt
      · have hend := hl.end_le hr hk hlt
        omega
      · have hend := hl.end_le hk hr hlt
        omega

/-! ## Reading -/

/-- Whatever is read off the heap is what the list says. -/
structure Shows (h : Heap) (a : ObjectList) : Prop where
  capacity_eq : h.capacity = a.capacity
  objectCount_eq : h.objectCount = a.objects.length
  used_eq : h.used = a.used
  used_le : h.used ≤ h.capacity
  header_eq : ∀ r kind slots, a.get? r = some (kind, slots) →
    ∃ entry, h.header r = .ok entry ∧ entry.kind = kind ∧
      entry.len = slots.length
  len_eq : ∀ r kind slots, a.get? r = some (kind, slots) →
    h.len r = .ok slots.length
  slots_eq : ∀ r kind slots, a.get? r = some (kind, slots) →
    h.slots r = .ok slots.toArray
  load_eq : ∀ r kind slots i v, a.get? r = some (kind, slots) →
    slots[i]? = some v → h.load r i = .ok v
  load_outside : ∀ r kind slots i, a.get? r = some (kind, slots) →
    slots.length ≤ i → h.load r i = .error (.slotOutOfBounds i slots.length)
  missing : ∀ r, a.get? r = none →
    h.header r = .error (.invalidReference r) ∧
      h.len r = .error (.invalidReference r) ∧
      h.slots r = .error (.invalidReference r) ∧
      ∀ i, h.load r i = .error (.invalidReference r)

theorem header_of_none (hnone : h.objects[r.toNat]? = none) :
    h.header r = .error (.invalidReference r) := by
  rw [header, hnone]

/-- An object of the view has an entry in the table. -/
theorem entry_of_view {kind : ObjectKind} {slots : List Value}
    (hget : h.view.get? r = some (kind, slots)) :
    ∃ entry, h.objects[r.toNat]? = some entry ∧ entry.kind = kind ∧
      h.contents entry = slots := by
  rw [view_get?, Option.map_eq_some_iff] at hget
  obtain ⟨entry, hentry, heq⟩ := hget
  obtain ⟨rfl, rfl⟩ := Prod.mk.inj heq
  exact ⟨entry, hentry, rfl, rfl⟩

theorem Laid.slots_of_contents (hl : h.Laid)
    (hentry : h.objects[r.toNat]? = some entry) :
    h.slots r = .ok (h.contents entry).toArray := by
  rw [hl.slots_of_entry hentry]
  congr 1
  apply Array.toList_inj.1
  rw [Array.toList_extract, List.extract_eq_take_drop,
    Nat.add_sub_cancel_left]
  rfl

theorem Laid.load_of_contents (hl : h.Laid) {i : Nat} {v : Value}
    (hentry : h.objects[r.toNat]? = some entry)
    (hv : (h.contents entry)[i]? = some v) : h.load r i = .ok v := by
  have hi : i < entry.len := by
    rw [← hl.length_contents hentry]
    exact (List.getElem?_eq_some_iff.1 hv).1
  rw [contents_getElem? hi] at hv
  exact hl.load_of_entry hentry hi hv

theorem load_outside_of_entry {i : Nat}
    (hentry : h.objects[r.toNat]? = some entry) (hi : entry.len ≤ i) :
    h.load r i = .error (.slotOutOfBounds i entry.len) := by
  rw [load, header_of_entry hentry]
  simp only [bind, Except.bind, if_neg (Nat.not_lt.2 hi)]
  rfl

/-- Nothing can be read where there is no object. -/
theorem reads_of_none (hnone : h.objects[r.toNat]? = none) :
    h.header r = .error (.invalidReference r) ∧
      h.len r = .error (.invalidReference r) ∧
      h.slots r = .error (.invalidReference r) ∧
      ∀ i, h.load r i = .error (.invalidReference r) := by
  have hheader := header_of_none hnone
  refine ⟨hheader, ?_, ?_, ?_⟩
  · rw [len, hheader]
    rfl
  · rw [Heap.slots, hheader]
    rfl
  · intro i
    rw [load, hheader]
    rfl

/-- A heap that is laid out shows its view. -/
theorem Laid.shows_view (hl : h.Laid) : h.Shows h.view where
  capacity_eq := rfl
  objectCount_eq := by simp [view, objectCount]
  used_eq := hl.used_view.symm
  used_le := hl.used_le
  header_eq := by
    intro r kind slots hget
    obtain ⟨entry, hentry, rfl, rfl⟩ := entry_of_view hget
    exact ⟨entry, header_of_entry hentry, rfl,
      (hl.length_contents hentry).symm⟩
  len_eq := by
    intro r kind slots hget
    obtain ⟨entry, hentry, rfl, rfl⟩ := entry_of_view hget
    rw [len_of_entry hentry, hl.length_contents hentry]
  slots_eq := by
    intro r kind slots hget
    obtain ⟨entry, hentry, rfl, rfl⟩ := entry_of_view hget
    exact hl.slots_of_contents hentry
  load_eq := by
    intro r kind slots i v hget hv
    obtain ⟨entry, hentry, rfl, rfl⟩ := entry_of_view hget
    exact hl.load_of_contents hentry hv
  load_outside := by
    intro r kind slots i hget hi
    obtain ⟨entry, hentry, rfl, rfl⟩ := entry_of_view hget
    rw [hl.length_contents hentry] at hi ⊢
    exact load_outside_of_entry hentry hi
  missing := by
    intro r hget
    rw [view_get?, Option.map_eq_none_iff] at hget
    exact reads_of_none hget

/-! ## One request -/

/-- The heap stands for a list of objects, and `count` requests for slots
have been refused so far. -/
structure StandsFor (h : Heap) (a : ObjectList) (count : Nat) : Prop where
  laid : h.Laid
  view_eq : h.view = a
  stats_eq : h.stats =
    ⟨a.objects.length, count, a.used, ObjectList.largest a.objects⟩

theorem standsFor_empty (bytes word : Nat) :
    (empty bytes word).StandsFor (.empty (bytes / word)) 0 :=
  ⟨laid_empty bytes word, view_empty bytes word, rfl⟩

variable {a : ObjectList} {count : Nat}

theorem StandsFor.refuse (hs : h.StandsFor a count) :
    h.refuse.StandsFor a (count + 1) where
  laid := hs.laid.refuse
  view_eq := hs.view_eq
  stats_eq := by rw [Heap.refuse, hs.stats_eq]

/-- Both have the same number of objects. -/
theorem StandsFor.length_objects (hs : h.StandsFor a count) :
    a.objects.length = h.objects.size := by
  rw [← hs.view_eq, view, List.length_map, Array.length_toList]

/-- Both have the same slots taken. -/
theorem StandsFor.used_eq (hs : h.StandsFor a count) : a.used = h.used := by
  rw [← hs.view_eq, hs.laid.used_view]

/-- The room that an allocation needs, said of the heap and of the list. -/
theorem StandsFor.room_iff (hs : h.StandsFor a count) (n : Nat) :
    h.objects.size < maxObjects ∧ n ≤ h.free ↔
      a.used + n ≤ a.capacity ∧ a.objects.length < 65536 := by
  have hcapacity : a.capacity = h.capacity := by rw [← hs.view_eq, view]
  have hle := hs.laid.used_le
  rw [hs.length_objects, hs.used_eq, hcapacity]
  unfold used Arena.used capacity at hle
  unfold free Arena.remaining maxObjects used Arena.used capacity
  omega

/-- An allocation is the same for the heap and for the list. -/
theorem StandsFor.allocate (hs : h.StandsFor a count) (kind : ObjectKind)
    (zeroed : Bool) (n : Nat) :
    Ends (allocateKind kind zeroed n) h
      (fun r t => ∃ b,
        ObjectList.append kind (List.replicate n (freshValue kind zeroed)) a =
            .ok r b ∧
          r.toNat = a.objects.length ∧ t.StandsFor b count)
      (fun e t =>
        ObjectList.append kind (List.replicate n (freshValue kind zeroed)) a =
            .error e a ∧
          refused (.error e) = true ∧ t = h.refuse) := by
  have hroom := hs.room_iff n
  have hfree : a.capacity - a.used = h.free := by
    rw [hs.used_eq, ← hs.view_eq]
    rfl
  unfold ObjectList.append
  rw [List.length_replicate]
  apply (hs.laid.allocateKind_ends kind zeroed n).mono
  · intro r t hend
    obtain ⟨hobjects, hn, hr, rfl⟩ := hend
    generalize freshValue kind zeroed = v
    have hsize : (Array.replicate n v).size = n := Array.size_replicate
    have hn' : (Array.replicate n v).size ≤ h.free := by
      rw [hsize]
      exact hn
    refine ⟨{ a with objects := a.objects ++ [(kind, List.replicate n v)] },
      ?_, hr.trans hs.length_objects.symm, ?_, ?_, ?_⟩
    · rw [if_pos (hroom.1 ⟨hobjects, hn⟩), hs.length_objects, ← hr,
        UInt16.ofNat_toNat]
    · exact hs.laid.extend kind hobjects hn'
    · rw [hs.laid.view_extend kind hn', Array.toList_replicate, hs.view_eq]
    · have hused : h.used = ObjectList.slotCount a.objects :=
        hs.used_eq.symm
      have hstats : (h.extend kind (Array.replicate n v)).stats =
          { h.stats with
            allocations := h.stats.allocations + 1
            slotsInUse := h.used + (Array.replicate n v).size
            largest := max h.stats.largest (Array.replicate n v).size } := rfl
      simp only [hstats, hs.stats_eq, hsize, hused,
        ObjectList.used, List.length_append, List.length_singleton,
        ObjectList.slotCount_append, ObjectList.largest_concat,
        ObjectList.slotCount, List.length_replicate, Nat.add_zero]
  · intro e t hend
    obtain ⟨rfl, rfl, hnot⟩ := hend
    rw [if_neg fun hfits => hnot (hroom.2 hfits), hfree]
    exact ⟨rfl, rfl, rfl⟩

/-- A store is the same for the heap and for the list. -/
theorem StandsFor.store (hs : h.StandsFor a count) (r : UInt16) (i : Nat)
    (v : Value) :
    Ends (Heap.store r i v) h
      (fun _ t => ∃ b, ObjectList.set r i v a = .ok () b ∧
        t.StandsFor b count)
      (fun e t => ObjectList.set r i v a = .error e a ∧
        refused (.error e) = false ∧ t = h) := by
  obtain ⟨hl, rfl, hstats⟩ := hs
  unfold ObjectList.set
  rw [view_get?]
  apply (store_ends h r i v).mono
  · intro _ t hend
    obtain ⟨entry, hentry, hi, rfl⟩ := hend
    have hlen := hl.length_contents hentry
    rw [hentry]
    simp only [Option.map_some, hlen, if_pos hi]
    refine ⟨_, rfl, hl.write hentry hi v, hl.view_write v hentry hi, ?_⟩
    have hobject : h.view.objects[r.toNat]? =
        some (entry.kind, h.contents entry) := by
      have hget := h.view_get? r
      rw [hentry] at hget
      exact hget
    obtain ⟨hslots, hlargest⟩ := ObjectList.slotCount_congr
      (ObjectList.map_length_set hobject
        (entry.kind, (h.contents entry).set i v) List.length_set)
    rw [List.length_set, ObjectList.used, hslots, hlargest]
    exact hstats
  · intro e t hend
    obtain ⟨rfl, hwhy⟩ := hend
    rcases hwhy with ⟨hnot, rfl⟩ | ⟨entry, hentry, hle, rfl⟩
    · have hnone : t.objects[r.toNat]? = none :=
        Array.getElem?_eq_none (Nat.not_lt.1 hnot)
      rw [hnone]
      exact ⟨rfl, rfl, rfl⟩
    · have hlen := hl.length_contents hentry
      rw [hentry]
      simp only [Option.map_some, hlen, if_neg (Nat.not_lt.2 hle)]
      exact ⟨trivial, rfl, trivial⟩

/-- The square for a request for slots. -/
theorem StandsFor.filled (hs : h.StandsFor a count) (kind : ObjectKind)
    (zeroed : Bool) (n : Nat) :
    Ends (Request.handleOf (allocateKind kind zeroed n)) h
      (fun answer t => ∃ b,
        Request.filled kind n (freshValue kind zeroed) a = .ok answer b ∧
        (∀ r, answer = some r → r.toNat = a.objects.length) ∧
        t.StandsFor b count)
      (fun e t =>
        Request.filled kind n (freshValue kind zeroed) a = .error e a ∧
        t = if refused (.error e) then h.refuse else h) := by
  unfold Request.handleOf Request.filled Request.handleOf
  apply Ends.bind ((hs.allocate kind zeroed n).imp_fail ?_)
  · intro r t hend
    obtain ⟨b, happend, hr, ht⟩ := hend
    apply Ends.pure
    refine ⟨b, ?_, ?_, ht⟩
    · simp only [Bind.bind, EStateM.bind, happend]
      rfl
    · intro r' hr'
      cases hr'
      exact hr
  · intro e t hend
    obtain ⟨happend, hrefused, rfl⟩ := hend
    rw [if_pos hrefused]
    simp only [Bind.bind, EStateM.bind, happend]
    exact ⟨trivial, trivial⟩

/-- The square between a heap and the list that it stands for. -/
theorem StandsFor.onHeap (hs : h.StandsFor a count) (request : Request) :
    Ends request.onHeap h
      (fun answer t => ∃ b, request.onObjects a = .ok answer b ∧
        (∀ r, answer = some r → r.toNat = a.objects.length) ∧
        t.StandsFor b count)
      (fun e t => request.onObjects a = .error e a ∧
        t = if refused (.error e) then h.refuse else h) := by
  cases request with
  | block zeroed n => exact hs.filled ..
  | object classId fields => exact hs.filled ..
  | array element len => exact hs.filled ..
  | store r i v =>
    apply Ends.bind ((hs.store r i v).imp_fail ?_)
    · intro _ t hend
      obtain ⟨b, hset, ht⟩ := hend
      apply Ends.pure
      refine ⟨b, ?_, ?_, ht⟩
      · simp only [Request.onObjects, Bind.bind, EStateM.bind, hset]
        rfl
      · intro r' hr'
        cases hr'
    · intro e t hend
      obtain ⟨hset, hrefused, rfl⟩ := hend
      rw [hrefused]
      simp only [Request.onObjects, Bind.bind, EStateM.bind, hset]
      exact ⟨trivial, rfl⟩

/-! ## A row of requests -/

/-- A row of requests gets the same answers from both, and leaves a heap that
stands for the list that is left. -/
theorem StandsFor.serve (hs : h.StandsFor a count) (requests : List Request) :
    ∃ answers t b,
      Request.serve Request.onHeap requests h = (answers, t) ∧
        Request.serve Request.onObjects requests a = (answers, b) ∧
        t.StandsFor b (count + answers.countP refused) := by
  induction requests generalizing h a count with
  | nil => exact ⟨[], h, a, rfl, rfl, hs⟩
  | cons request rest ih =>
    have hsquare := hs.onHeap request
    cases hask : request.onHeap h with
    | ok answer t =>
      obtain ⟨b, hobjects, -, ht⟩ := hsquare.of_ok hask
      obtain ⟨answers, t', b', hserve, hserve', ht'⟩ := ih ht
      refine ⟨.ok answer :: answers, t', b', ?_, ?_, ?_⟩
      · rw [Request.serve, hask]
        simp only [hserve]
      · rw [Request.serve, hobjects]
        simp only [hserve']
      · rw [List.countP_cons_of_neg (by simp [refused])]
        exact ht'
    | error e t =>
      obtain ⟨hobjects, rfl⟩ := hsquare.of_error hask
      have ht : (if refused (.error e) then h.refuse else h).StandsFor a
          (count + if refused (.error e) then 1 else 0) := by
        split
        · exact hs.refuse
        · exact hs
      obtain ⟨answers, t', b', hserve, hserve', ht'⟩ := ih ht
      refine ⟨.error e :: answers, t', b', ?_, ?_, ?_⟩
      · rw [Request.serve, hask]
        simp only [hserve]
      · rw [Request.serve, hobjects]
        simp only [hserve']
      · rw [List.countP_cons]
        rw [Nat.add_assoc, Nat.add_comm (ite ..)] at ht'
        exact ht'

/-- **A heap is a growing list of independent objects.**  Any row of requests
gets the same answers from a new heap as from an empty list of objects, and
afterwards whatever is read off the heap is what the list says.  The slots
that are not handed out hold what they held in the beginning.  The next
request answers an allocation with the position of the new object, and one
that fails changes nothing but the number of refusals, and that only if it
was refused for want of room. -/
theorem heap_refines_objects (bytes : Nat) (w : Width)
    (requests : List Request) :
    ∃ answers h a,
      Request.serve Request.onHeap requests (empty bytes w.bytes) =
          (answers, h) ∧
        Request.serve Request.onObjects requests
            (.empty (bytes / w.bytes)) = (answers, a) ∧
        h.Shows a ∧
        (∀ (i : Nat) v, h.used ≤ i → h.arena.cells[i]? = some v →
          v = .null) ∧
        h.stats = ⟨a.objects.length, answers.countP refused, a.used,
          ObjectList.largest a.objects⟩ ∧
        ∀ request : Request,
          Ends request.onHeap h
            (fun answer _ => ∀ r, answer = some r →
              r.toNat = a.objects.length)
            (fun e t => t = if refused (.error e) then h.refuse else h) := by
  obtain ⟨answers, h, a, hserve, hserve', hs⟩ :=
    (standsFor_empty bytes w.bytes).serve requests
  refine ⟨answers, h, a, hserve, hserve', ?_, hs.laid.clean.untouched, ?_, ?_⟩
  · rw [← hs.view_eq]
    exact hs.laid.shows_view
  · rw [hs.stats_eq, Nat.zero_add]
  · intro request
    apply (hs.onHeap request).mono
    · intro answer t hend
      obtain ⟨b, -, hr, -⟩ := hend
      exact hr
    · exact fun e t hend => hend.2

end Heap

end SlotVm
