import SlotVm.Heap.Arena

/-!
# The mark of the arena

A request moves the mark of an arena and writes nothing, so what a new object
holds depends on what has been written behind the mark before.
`Arena.Clean` says that nothing has: the slots behind the mark hold what they
held in the beginning.  An empty arena is clean, and every operation keeps it
so, as long as only slots are written that are handed out.

There are three groups of lemmas.

* What each operation does to a slot (`getElem?_fill`, `slots_write`).
* `Arena.extend` is the arena with the given values in the next slots.  The
  two ways to hand out slots are cases of it: slots that are filled
  (`Clean.fill_handedOut`), and slots that are left as they are
  (`Clean.handedOut`).
* That all of them keep the arena clean (`Clean.extend`, `Clean.write`).
-/

namespace SlotVm.Arena

variable {a : Arena} {contents : Array Value} {count first slot i : Nat}
variable {v : Value}

/-- The mark is inside the row, and behind it nothing has been written. -/
structure Clean (a : Arena) : Prop where
  top_le : a.top ≤ a.capacity
  untouched : ∀ (i : Nat) v, a.top ≤ i → a.cells[i]? = some v → v = .null

theorem clean_empty (capacity : Nat) : (empty capacity).Clean where
  top_le := Nat.zero_le _
  untouched := by
    intro i v _ hv
    exact Array.eq_of_mem_replicate (Array.mem_of_getElem? hv)

/-! ## Slots -/

theorem getElem?_drop (xs : Array Value) (n i : Nat) :
    (xs.drop n)[i]? = xs[n + i]? := by
  rw [Array.drop_eq_extract, Array.getElem?_extract]
  split
  · rfl
  · rw [Array.getElem?_eq_none (by omega)]

theorem toList_slots (a : Arena) :
    a.slots.toList = a.cells.toList.take a.top := by
  simp [slots]

/-- The slots that are handed out are as many as the mark says. -/
theorem size_slots (h : a.top ≤ a.capacity) : a.slots.size = a.top := by
  unfold capacity at h
  rw [slots, Array.take_eq_extract, Array.size_extract]
  omega

/-- A slot that is handed out. -/
theorem slots_getElem? (h : i < a.top) : a.slots[i]? = a.cells[i]? := by
  rw [← Array.getElem?_toList, ← Array.getElem?_toList, toList_slots,
    List.getElem?_take_of_lt h]

/-- Slots next to each other that are handed out. -/
theorem slots_extract {last : Nat} (h : last ≤ a.top) :
    a.slots.extract first last = a.cells.extract first last := by
  rw [slots, Array.take_eq_extract, Array.extract_extract]
  congr 1 <;> omega

@[simp]
theorem top_write (a : Arena) (slot : Nat) (v : Value) :
    (a.write slot v).top = a.top := rfl

@[simp]
theorem capacity_write (a : Arena) (slot : Nat) (v : Value) :
    (a.write slot v).capacity = a.capacity :=
  Array.size_setIfInBounds

/-- A slot that is not handed out may be written or not. -/
theorem slots_write (a : Arena) (slot : Nat) (v : Value) :
    (a.write slot v).slots = a.slots.setIfInBounds slot v := by
  apply Array.ext'
  rw [toList_slots, Array.toList_setIfInBounds, toList_slots, top_write,
    write, Array.toList_setIfInBounds, List.take_set]

/-- A write to a slot that is handed out. -/
theorem Clean.write (h : a.Clean) (hslot : slot < a.top) (v : Value) :
    (a.write slot v).Clean where
  top_le := by
    rw [capacity_write]
    exact h.top_le
  untouched := by
    intro i w hi hw
    have hne : slot ≠ i := Nat.ne_of_lt (Nat.lt_of_lt_of_le hslot hi)
    rw [Arena.write, Array.getElem?_setIfInBounds_ne hne] at hw
    exact h.untouched i w hi hw

@[simp]
theorem top_fill (a : Arena) (first : Nat) (v : Value) (count : Nat) :
    (a.fill first v count).top = a.top := by
  induction count with
  | zero => rfl
  | succ count ih => exact ih

@[simp]
theorem capacity_fill (a : Arena) (first : Nat) (v : Value) (count : Nat) :
    (a.fill first v count).capacity = a.capacity := by
  induction count with
  | zero => rfl
  | succ count ih => rw [fill, capacity_write, ih]

/-- The slots that are filled, and no others. -/
theorem getElem?_fill (h : first + count ≤ a.capacity) :
    (a.fill first v count).cells[i]? =
      if first ≤ i ∧ i < first + count then some v else a.cells[i]? := by
  induction count with
  | zero =>
    rw [if_neg (by omega)]
    rfl
  | succ count ih =>
    have hlast : first + count < (a.fill first v count).cells.size := by
      have hsize := capacity_fill a first v count
      unfold capacity at hsize h
      omega
    rw [fill, write, Array.getElem?_setIfInBounds]
    by_cases hi : first + count = i
    · rw [if_pos hi, if_pos (hi ▸ hlast), if_pos (by omega)]
    · rw [if_neg hi, ih (by omega)]
      congr 1
      exact propext (by omega)

/-! ## New slots -/

theorem allocate?_of_le (h : count ≤ a.remaining) :
    a.allocate? count = some (a.top, { a with top := a.top + count }) :=
  if_neg (Nat.not_lt.2 h)

theorem allocate?_of_lt (h : a.remaining < count) : a.allocate? count = none :=
  if_pos h

/-- The arena with the given values in the slots that are handed out next. -/
def extend (a : Arena) (contents : Array Value) : Arena where
  cells := a.slots ++ contents ++ a.cells.drop (a.top + contents.size)
  top := a.top + contents.size

theorem slots_extend (h : a.top ≤ a.capacity) (contents : Array Value) :
    (a.extend contents).slots = a.slots ++ contents := by
  have hsize : (a.slots ++ contents).size = a.top + contents.size := by
    rw [Array.size_append, size_slots h]
  apply Array.ext'
  rw [toList_slots, extend, Array.toList_append, ← hsize,
    ← Array.length_toList, List.take_left]

theorem capacity_extend (h : a.top ≤ a.capacity)
    (hroom : contents.size ≤ a.remaining) :
    (a.extend contents).capacity = a.capacity := by
  have hsize := size_slots h
  unfold remaining at hroom
  unfold capacity at h hroom ⊢
  rw [extend, Array.size_append, Array.size_append, hsize,
    Array.drop_eq_extract, Array.size_extract]
  omega

/-- The slots in front of the new ones, the new ones, and those that are
left. -/
theorem getElem?_extend (h : a.top ≤ a.capacity) (contents : Array Value)
    (i : Nat) : (a.extend contents).cells[i]? =
      if a.top ≤ i ∧ i < a.top + contents.size then contents[i - a.top]?
      else a.cells[i]? := by
  have hsize := size_slots h
  rw [extend]
  by_cases hi : i < a.top
  · rw [if_neg (by omega), Array.getElem?_append_left (by
      rw [Array.size_append]; omega), Array.getElem?_append_left (by omega),
      slots_getElem? hi]
  · by_cases hi' : i < a.top + contents.size
    · rw [if_pos ⟨Nat.not_lt.1 hi, hi'⟩, Array.getElem?_append_left (by
        rw [Array.size_append]; omega), Array.getElem?_append_right (by omega),
        hsize]
    · rw [if_neg fun hin => hi' hin.2, Array.getElem?_append_right (by
        rw [Array.size_append]; omega), getElem?_drop, Array.size_append]
      congr 1
      omega

/-- Arenas with the same mark and the same slots. -/
theorem ext_getElem? {b : Arena} (htop : a.top = b.top)
    (hcells : ∀ i : Nat, a.cells[i]? = b.cells[i]?) : a = b := by
  obtain ⟨cells, top⟩ := a
  obtain ⟨cells', top'⟩ := b
  obtain rfl : cells = cells' := Array.ext_getElem? hcells
  obtain rfl : top = top' := htop
  rfl

theorem Clean.extend (h : a.Clean) (hroom : contents.size ≤ a.remaining) :
    (a.extend contents).Clean where
  top_le := by
    have hle := h.top_le
    rw [capacity_extend hle hroom]
    show a.top + contents.size ≤ a.capacity
    unfold remaining at hroom
    omega
  untouched := by
    intro i v hi hv
    have hbehind : a.top + contents.size ≤ i := hi
    rw [getElem?_extend h.top_le, if_neg (by omega)] at hv
    exact h.untouched i v (by omega) hv

/-- Slots that are handed out and filled. -/
theorem Clean.fill_handedOut (h : a.Clean) (hroom : count ≤ a.remaining)
    (v : Value) :
    ({ a with top := a.top + count } : Arena).fill a.top v count =
      a.extend (Array.replicate count v) := by
  have hle := h.top_le
  have hend : a.top + count ≤
      ({ a with top := a.top + count } : Arena).capacity := by
    unfold remaining at hroom
    show a.top + count ≤ a.capacity
    omega
  apply ext_getElem?
  · rw [top_fill, Arena.extend, Array.size_replicate]
  · intro i
    rw [getElem?_fill hend, getElem?_extend hle, Array.size_replicate]
    by_cases hi : a.top ≤ i ∧ i < a.top + count
    · rw [if_pos hi, if_pos hi, Array.getElem?_replicate, if_pos (by omega)]
    · rw [if_neg hi, if_neg hi]

/-- Slots that are handed out and left as they are hold nulls, because
nothing has been written there before. -/
theorem Clean.handedOut (h : a.Clean) (hroom : count ≤ a.remaining) :
    ({ a with top := a.top + count } : Arena) =
      a.extend (Array.replicate count .null) := by
  have hle := h.top_le
  apply ext_getElem?
  · rw [Arena.extend, Array.size_replicate]
  · intro i
    rw [getElem?_extend hle, Array.size_replicate]
    by_cases hi : a.top ≤ i ∧ i < a.top + count
    · have hin : i < a.cells.size := by
        unfold remaining capacity at hroom
        omega
      have hv := Array.getElem?_eq_getElem hin
      rw [if_pos hi, Array.getElem?_replicate, if_pos (by omega), hv,
        h.untouched i _ hi.1 hv]
    · rw [if_neg hi]

/-- A write to one of the new slots. -/
theorem write_extend (h : a.top ≤ a.capacity) (hi : i < contents.size)
    (v : Value) : (a.extend contents).write (a.top + i) v =
      a.extend (contents.setIfInBounds i v) := by
  have hsize := size_slots h
  have hleft : a.top + i < (a.slots ++ contents).size := by
    rw [Array.size_append]
    omega
  have hplace : a.top + i - a.slots.size = i := by omega
  rw [write, extend, extend, Array.size_setIfInBounds,
    Array.setIfInBounds_append_left hleft,
    Array.setIfInBounds_append_right (by omega), hplace]

end SlotVm.Arena
