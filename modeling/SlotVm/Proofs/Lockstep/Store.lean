import SlotVm.Config.Basic
import SlotVm.Image.Basic
import SlotVm.Native.Store
import SlotVm.Proofs.Heap
import SlotVm.Proofs.Lockstep.Action

/-!
# Stores side by side

Two machines that run the same image may differ in two ways: in the values
that are out of reach on the operand stack, and in the limits and features of
their configurations.  A `Variation` names the two configurations and the
values out of reach on both sides.  `Variation.Excuses` says at which faults
the first machine may stop alone; where a limit is the same on both sides,
reaching it is not excused.

`Variation.Stores` relates two such stores.  `Uniform` says that an action
does the same on both of them.  There are three groups of lemmas.

* Heaps.  A larger heap is the smaller one with more slots behind
  (`Heap.withCapacity`).  Those are nulls, and so are the slots of the smaller
  heap that are not handed out, so both hand out the same ones
  (`Laid.extend_withCapacity`).
* One rule for each way to build an action.
* The operations on the operand stack, the heap, the console and the log.
  A value is taken or looked at above the floor only, so these lemmas ask
  that the floor is not below the values out of reach; a push does not ask
  for it.
-/

namespace SlotVm

open SlotVm.Action

/-! ## Heaps of another capacity -/

/-- The arena with more slots behind its own. -/
def Arena.withCapacity (capacity : Nat) (a : Arena) : Arena :=
  { a with
    cells := a.cells ++ Array.replicate (capacity - a.capacity) .null }

/-- The heap with a larger capacity. -/
def Heap.withCapacity (capacity : Nat) (h : Heap) : Heap :=
  { h with arena := h.arena.withCapacity capacity }

namespace Arena

variable {capacity slot : Nat} {a : Arena} {contents : Array Value}

theorem capacity_withCapacity (h : a.capacity ≤ capacity) :
    (a.withCapacity capacity).capacity = capacity := by
  unfold Arena.capacity at h ⊢
  rw [withCapacity, Array.size_append, Array.size_replicate]
  unfold Arena.capacity
  omega

theorem withCapacity_self (a : Arena) : a.withCapacity a.capacity = a := by
  rw [withCapacity, Nat.sub_self, Array.replicate_zero, Array.append_empty]

theorem withCapacity_empty {n : Nat} (h : n ≤ capacity) :
    (empty n).withCapacity capacity = empty capacity := by
  unfold withCapacity empty Arena.capacity
  simp only [Array.size_replicate, Array.replicate_append_replicate,
    Nat.add_sub_cancel' h]

/-- The new slots hold nulls. -/
theorem getElem?_withCapacity (i : Nat) :
    (a.withCapacity capacity).cells[i]? =
      if i < a.capacity then a.cells[i]?
      else if i < capacity then some .null else none := by
  unfold Arena.capacity
  rw [withCapacity, Array.getElem?_append]
  by_cases hi : i < a.cells.size
  · rw [if_pos hi, if_pos hi]
  · rw [if_neg hi, if_neg hi, Array.getElem?_replicate]
    unfold Arena.capacity
    congr 1
    exact propext (by omega)

theorem slots_withCapacity (h : a.top ≤ a.capacity) :
    (a.withCapacity capacity).slots = a.slots := by
  apply Array.ext'
  have htop : a.top ≤ a.cells.toList.length := by
    rw [Array.length_toList]
    exact h
  rw [toList_slots, toList_slots, withCapacity, Array.toList_append,
    List.take_append_of_le_length htop]

theorem Clean.withCapacity (h : a.Clean) (hle : a.capacity ≤ capacity) :
    (a.withCapacity capacity).Clean where
  top_le := by
    rw [capacity_withCapacity hle]
    exact Nat.le_trans h.top_le hle
  untouched := by
    intro i v hi hv
    rw [getElem?_withCapacity] at hv
    split at hv
    · exact h.untouched i v hi hv
    · split at hv
      · cases hv
        rfl
      · cases hv

/-- The next slots are the same ones. -/
theorem extend_withCapacity (h : a.top ≤ a.capacity)
    (hle : a.capacity ≤ capacity) (hroom : contents.size ≤ a.remaining) :
    (a.withCapacity capacity).extend contents =
      (a.extend contents).withCapacity capacity := by
  have hle' := capacity_withCapacity hle
  have htop : (a.withCapacity capacity).top ≤
      (a.withCapacity capacity).capacity := by
    rw [hle']
    exact Nat.le_trans h hle
  refine ext_getElem? (by rfl) ?_
  intro i
  rw [getElem?_extend htop, getElem?_withCapacity, getElem?_withCapacity,
    capacity_extend h hroom, getElem?_extend h]
  unfold remaining at hroom
  show (if a.top ≤ i ∧ i < a.top + contents.size then _ else _) = _
  by_cases hi : a.top ≤ i ∧ i < a.top + contents.size
  · rw [if_pos hi, if_pos (by omega), if_pos hi]
    rfl
  · rw [if_neg hi, if_neg hi]

theorem write_withCapacity (h : slot < a.capacity) (v : Value) :
    (a.withCapacity capacity).write slot v =
      (a.write slot v).withCapacity capacity := by
  unfold Arena.withCapacity
  rw [capacity_write]
  unfold write
  rw [Array.setIfInBounds_append_left h]

end Arena

namespace Heap

variable {capacity : Nat} {h : Heap} {handle : UInt16}

theorem withCapacity_self (h : Heap) : h.withCapacity h.capacity = h := by
  unfold withCapacity capacity
  rw [Arena.withCapacity_self]

theorem Laid.withCapacity (hl : h.Laid) (hle : h.capacity ≤ capacity) :
    (h.withCapacity capacity).Laid :=
  ⟨hl.offset_eq, hl.used_eq, hl.count_le, hl.clean.withCapacity hle⟩

@[simp]
theorem header_withCapacity :
    (h.withCapacity capacity).header handle = h.header handle := rfl

theorem Laid.slots_withCapacity (hl : h.Laid) (hle : h.capacity ≤ capacity) :
    (h.withCapacity capacity).slots handle = h.slots handle := by
  cases hentry : h.objects[handle.toNat]? with
  | none =>
    unfold slots
    rw [header_withCapacity, header, hentry]
    rfl
  | some entry =>
    rw [hl.slots_of_entry hentry, (hl.withCapacity hle).slots_of_entry hentry]
    simp only [Heap.withCapacity]
    rw [Arena.slots_withCapacity hl.clean.top_le]

/-- A slot that is not there reads as null in any case. -/
@[simp]
theorem load_withCapacity (index : Nat) :
    (h.withCapacity capacity).load handle index = h.load handle index := by
  have hcell : ∀ i : Nat,
      (h.withCapacity capacity).arena.cells.getD i .null =
        h.arena.cells.getD i .null := by
    intro i
    rw [Array.getD_eq_getD_getElem?, Array.getD_eq_getD_getElem?]
    simp only [Heap.withCapacity]
    rw [Arena.getElem?_withCapacity]
    split
    · rfl
    · rename_i hi
      rw [Array.getElem?_eq_none (Nat.not_lt.1 hi)]
      split <;> rfl
  unfold load
  simp only [hcell, header_withCapacity]

theorem Laid.extend_withCapacity (hl : h.Laid) (hle : h.capacity ≤ capacity)
    (kind : ObjectKind) {contents : Array Value}
    (hfree : contents.size ≤ h.free) :
    (h.withCapacity capacity).extend kind contents =
      (h.extend kind contents).withCapacity capacity := by
  unfold Heap.withCapacity Heap.extend Heap.enter
  simp only
  rw [Arena.extend_withCapacity hl.clean.top_le hle hfree]
  rfl

theorem Laid.write_withCapacity (hl : h.Laid) {k i : Nat} {entry : Header}
    (hentry : h.objects[k]? = some entry) (hi : i < entry.len) (v : Value) :
    (h.withCapacity capacity).write (entry.offset + i) v =
      (h.write (entry.offset + i) v).withCapacity capacity := by
  have hend := hl.end_le_used hentry
  have hle := hl.used_le
  unfold Heap.withCapacity Heap.write
  simp only
  rw [Arena.write_withCapacity (Nat.lt_of_lt_of_le (by omega) hle)]

end Heap

/-! ## Configurations -/

/-- The second configuration allows what the first does.  The two differ in
sizes, features and the treatment of a residue at most. -/
structure Config.Relaxes (c c' : Config) : Prop where
  codeSize_eq : c'.codeSize = c.codeSize
  word_eq : c'.word = c.word
  inheritance_eq : c'.features.inheritance = c.features.inheritance
  storageFlag_eq : c'.storageFlag = c.storageFlag
  native_eq : c'.native = c.native
  families_eq : c'.families = c.families
  trace_eq : c'.trace = c.trace
  stackSize_le : c.stackSize ≤ c'.stackSize
  heapSize_le : c.heapSize ≤ c'.heapSize
  maxCallDepth_le : c.maxCallDepth ≤ c'.maxCallDepth
  arrays_le : c.features.arrays = true → c'.features.arrays = true
  switch_le : c.features.switch = true → c'.features.switch = true
  float_le : c.features.float = true → c'.features.float = true
  residue_le : c.residue = .verify ∨ c'.residue = c.residue

theorem Config.Relaxes.refl (c : Config) : c.Relaxes c :=
  ⟨rfl, rfl, rfl, rfl, rfl, rfl, rfl, Nat.le_refl _, Nat.le_refl _,
    Nat.le_refl _, id, id, id, .inr rfl⟩

/-- Two machines for one image, with the values that are out of reach. -/
structure Variation where
  image : Image
  config : Config
  config' : Config
  relaxes : config.Relaxes config'
  /-- Values out of reach, bottom first. -/
  below : List Value
  below' : List Value
  length_eq : below'.length = below.length
  /-- The logs are the same too. -/
  watched : Prop

namespace Variation

variable {δ α β : Type} {v : Variation} {k : Nat}

/-- Number of values out of reach. -/
def height (v : Variation) : Nat := v.below.length

/-- Faults that may stop the first machine alone.  A missing method is one of
them because the report of a residue looks up the method that left it. -/
def Excuses (v : Variation) : Fault → Prop
  | .stackOverflow _ => v.config'.stackSize ≠ v.config.stackSize
  | .heapExhausted .. => v.config'.heapSize ≠ v.config.heapSize
  | .callDepthExceeded _ => v.config'.maxCallDepth ≠ v.config.maxCallDepth
  | .unsupportedOpcode .. => v.config'.features ≠ v.config.features
  | .stackImbalance .. | .invalidImage (.methodIndex _) =>
      v.config'.residue ≠ v.config.residue
  | _ => False

/-- A fault is excused only where the configurations differ. -/
theorem config_ne_of_excuses {e : Fault} (he : v.Excuses e) :
    v.config' ≠ v.config := by
  intro heq
  unfold Excuses at he
  rw [heq] at he
  cases e with
  | invalidImage d =>
    cases d with
    | methodIndex index => exact he rfl
    | _ => exact he
  | stackOverflow | heapExhausted | callDepthExceeded | unsupportedOpcode
  | stackImbalance => exact he rfl
  | _ => exact he

/-! ## Relations -/

/-- The stacks are the same above the values out of reach, and the floor is
at least `k`. -/
structure Stacks (v : Variation) (k : Nat) (s s' : Stack) : Prop where
  values : ∃ own, s.values.toList = v.below ++ own ∧
    s'.values.toList = v.below' ++ own
  floor_eq : s'.floor = s.floor
  floor_le : k ≤ s.floor
  limit_le : s.limit ≤ s'.limit
  limit_eq : v.config'.stackSize = v.config.stackSize → s'.limit = s.limit

/-- The heaps are laid out, and differ in their capacity at most. -/
def Heaps (v : Variation) (h h' : Heap) : Prop :=
  h.Laid ∧ ∃ capacity, h' = h.withCapacity capacity ∧ h.capacity ≤ capacity ∧
    (v.config'.heapSize = v.config.heapSize → capacity = h.capacity)

/-- The stores differ in the values out of reach and in their limits at
most. -/
structure Stores (v : Variation) (k : Nat) (s s' : Store δ) : Prop where
  stack : v.Stacks k s.stack s'.stack
  heap : v.Heaps s.heap s'.heap
  console_eq : s'.console = s.console
  log_eq : v.watched → s'.log = s.log
  devices_eq : s'.devices = s.devices

/-- Other stacks on both sides. -/
theorem Stores.setStack {s s' : Store δ} (h : v.Stores k s s') {j : Nat}
    {stack stack' : Stack} (hstack : v.Stacks j stack stack') :
    v.Stores j { s with stack } { s' with stack := stack' } :=
  ⟨hstack, h.heap, h.console_eq, h.log_eq, h.devices_eq⟩

/-- The action on the store does the same on both sides. -/
def Uniform (v : Variation) (δ : Type) (k : Nat)
    (a a' : Action (Store δ) α) : Prop :=
  Mirrors (v.Stores k) (v.Stores k) (v.Stores k) v.Excuses a a'

/-! ## Building actions -/

namespace Uniform

variable {a a' : Action (Store δ) α} {f f' : α → Action (Store δ) β}

/-- The rule for a result without an action. -/
protected theorem pure (x : α) :
    v.Uniform δ k (Pure.pure x) (Pure.pure x) :=
  Mirrors.pure x

/-- The rule for a fault. -/
protected theorem throw (e : Fault) :
    v.Uniform δ k (throwThe Fault e : Action (Store δ) α) (throwThe Fault e) :=
  Mirrors.throw e fun _ _ hs => hs

/-- The rule for one action after another. -/
protected theorem bind (h : v.Uniform δ k a a')
    (hf : ∀ x, v.Uniform δ k (f x) (f' x)) :
    v.Uniform δ k (a >>= f) (a' >>= f') :=
  Mirrors.bind h hf

/-- The rule for a result that does not depend on the store. -/
protected theorem lift (r : Except Fault α) :
    v.Uniform δ k (Action.lift r) (Action.lift r) :=
  Mirrors.lift r fun _ _ hs => hs

/-- The rule for a result that is read off the store. -/
protected theorem read {r r' : Store δ → Except Fault α}
    (h : ∀ s s', v.Stores k s s' → r s = r' s') :
    v.Uniform δ k (Action.read r) (Action.read r') :=
  Mirrors.read h fun _ _ hs => hs

/-- The rule for an action on the operand stack. -/
protected theorem onStack {a a' : Action Stack α}
    (h : Mirrors (v.Stacks k) (v.Stacks k) (v.Stacks k) v.Excuses a a') :
    v.Uniform δ k (Store.onStack a) (Store.onStack a') := by
  intro s s' hs
  apply (h s.stack s'.stack hs.stack).onPart
  · exact fun t t' ht => hs.setStack ht
  · exact fun t t' ht => hs.setStack ht

/-- The rule for an action on the heap. -/
protected theorem onHeap {a a' : Action Heap α}
    (h : Mirrors v.Heaps v.Heaps v.Heaps v.Excuses a a') :
    v.Uniform δ k (Store.onHeap a) (Store.onHeap a') := by
  intro s s' hs
  apply (h s.heap s'.heap hs.heap).onPart
  · exact fun t t' ht => ⟨hs.stack, ht, hs.console_eq, hs.log_eq, hs.devices_eq⟩
  · exact fun t t' ht => ⟨hs.stack, ht, hs.console_eq, hs.log_eq, hs.devices_eq⟩

end Uniform

/-! ## The operand stack -/

namespace Stacks

variable {s s' : Stack}

theorem size_eq (h : v.Stacks k s s') : s'.values.size = s.values.size := by
  obtain ⟨own, hown, hown'⟩ := h.values
  have hlength := congrArg List.length hown
  have hlength' := congrArg List.length hown'
  rw [Array.length_toList, List.length_append] at hlength hlength'
  have heq := v.length_eq
  omega

theorem height_le_size (h : v.Stacks k s s') : v.height ≤ s.values.size := by
  obtain ⟨own, hown, -⟩ := h.values
  have hlength := congrArg List.length hown
  rw [Array.length_toList, List.length_append] at hlength
  unfold height
  omega

/-- The values above the first `height` are the same. -/
theorem getElem?_eq (h : v.Stacks k s s') {i : Nat} (hi : v.height ≤ i) :
    s'.values[i]? = s.values[i]? := by
  obtain ⟨own, hown, hown'⟩ := h.values
  have heq := v.length_eq
  unfold height at hi
  rw [← Array.getElem?_toList, ← Array.getElem?_toList, hown, hown',
    List.getElem?_append_right hi, List.getElem?_append_right (by omega), heq]

/-- The values above a place that is not out of reach are the same. -/
theorem drop_eq (h : v.Stacks k s s') {n : Nat} (hn : v.height ≤ n) :
    s'.values.toList.drop n = s.values.toList.drop n := by
  obtain ⟨own, hown, hown'⟩ := h.values
  have heq := v.length_eq
  unfold height at hn
  rw [hown, hown', List.drop_append, List.drop_append,
    List.drop_eq_nil_of_le (by omega), List.drop_eq_nil_of_le hn, heq]

/-- Stacks that are cut at the same place. -/
theorem take_eq (h : v.Stacks k s s') {n : Nat} (hn : v.height ≤ n) :
    ∃ own, s.values.toList.take n = v.below ++ own ∧
      s'.values.toList.take n = v.below' ++ own := by
  obtain ⟨own, hown, hown'⟩ := h.values
  have heq := v.length_eq
  unfold height at hn
  refine ⟨own.take (n - v.below.length), ?_, ?_⟩
  · rw [hown, List.take_append, List.take_of_length_le hn]
  · rw [hown', List.take_append, List.take_of_length_le (by omega), heq]

/-- Arrays that are cut at the same place. -/
theorem take (h : v.Stacks k s s') {n : Nat} (hn : v.height ≤ n) :
    v.Stacks k { s with values := s.values.take n }
      { s' with values := s'.values.take n } := by
  obtain ⟨own, hown, hown'⟩ := h.take_eq hn
  refine ⟨⟨own, ?_, ?_⟩, h.floor_eq, h.floor_le, h.limit_le, h.limit_eq⟩
  · simpa using hown
  · simpa using hown'

/-- Other values on both sides. -/
theorem setValues (h : v.Stacks k s s') {values values' : Array Value}
    (hvalues : ∃ own, values.toList = v.below ++ own ∧
      values'.toList = v.below' ++ own) :
    v.Stacks k { s with values } { s' with values := values' } :=
  ⟨hvalues, h.floor_eq, h.floor_le, h.limit_le, h.limit_eq⟩

/-- Other floors on both sides. -/
theorem setFloor (h : v.Stacks k s s') {j floor : Nat} (hj : j ≤ floor) :
    v.Stacks j (s.setFloor floor) (s'.setFloor floor) :=
  ⟨h.values, rfl, hj, h.limit_le, h.limit_eq⟩

/-- Both sides are cut, not below the values out of reach. -/
theorem truncate (h : v.Stacks k s s') {depth : Nat}
    (hheight : v.height ≤ depth) (hk : k ≤ depth) :
    v.Stacks k (s.truncate depth) (s'.truncate depth) := by
  have hcut := h.take hheight
  refine ⟨hcut.values, ?_, ?_, h.limit_le, h.limit_eq⟩
  · unfold Stack.truncate
    rw [h.floor_eq]
  · exact Nat.le_min.2 ⟨h.floor_le, hk⟩

end Stacks

/-- The values above the floor are the same. -/
theorem Stacks.getElem_eq (h : v.Stacks v.height s s') {i : Nat}
    (hi : s.floor ≤ i) (hlt : i < s.values.size) (hlt' : i < s'.values.size) :
    s'.values[i] = s.values[i] := by
  have heq := h.getElem?_eq (Nat.le_trans h.floor_le hi)
  rw [Array.getElem?_eq_getElem hlt, Array.getElem?_eq_getElem hlt'] at heq
  exact Option.some.inj heq

theorem stack_push (x : Value) :
    Mirrors (v.Stacks k) (v.Stacks k) (v.Stacks k) v.Excuses (Stack.push x)
      (Stack.push x) := by
  intro s s' hs
  have hsize := hs.size_eq
  have hlimit := hs.limit_le
  by_cases hroom : s.values.size < s.limit
  · have hroom' : s'.values.size < s'.limit := by omega
    refine .intro_ok (if_pos hroom) (if_pos hroom') (hs.setValues ?_)
    obtain ⟨own, hown, hown'⟩ := hs.values
    refine ⟨own ++ [x], ?_, ?_⟩
    · rw [Array.toList_push, hown, List.append_assoc]
    · rw [Array.toList_push, hown', List.append_assoc]
  · have hfull : Stack.push x s = .error (.stackOverflow s.limit) s :=
      if_neg hroom
    by_cases heq : v.config'.stackSize = v.config.stackSize
    · have hlimit' := hs.limit_eq heq
      have hroom' : ¬ s'.values.size < s'.limit := by omega
      have hfull' : Stack.push x s' = .error (.stackOverflow s'.limit) s' :=
        if_neg hroom'
      rw [hlimit'] at hfull'
      exact .intro_error hfull hfull' hs
    · exact .intro_excused hfull heq

theorem stack_pop :
    Mirrors (v.Stacks v.height) (v.Stacks v.height) (v.Stacks v.height)
      v.Excuses Stack.pop Stack.pop := by
  intro s s' hs
  have hsize := hs.size_eq
  have hfloor := hs.floor_eq
  have hreach := hs.floor_le
  by_cases hsome : s.floor < s.values.size
  · have hsome' : s'.floor < s'.values.size := by omega
    have htop : s'.values[s'.values.size - 1] =
        s.values[s.values.size - 1] := by
      simp only [hsize]
      exact hs.getElem_eq (by omega) (by omega) (by omega)
    have hpop' : Stack.pop s' = .ok s'.values[s'.values.size - 1]
        { s' with values := s'.values.pop } := dif_pos hsome'
    rw [htop] at hpop'
    refine .intro_ok (dif_pos hsome) hpop' (hs.setValues ?_)
    have hrest : v.height ≤ s.values.size - 1 := by omega
    obtain ⟨own, hown, hown'⟩ := hs.take_eq hrest
    refine ⟨own, ?_, ?_⟩
    · rw [Array.toList_pop, List.dropLast_eq_take, Array.length_toList, hown]
    · rw [Array.toList_pop, List.dropLast_eq_take, Array.length_toList, hsize,
        hown']
  · have hnone : ¬ s'.floor < s'.values.size := by omega
    have hfail : Stack.pop s = .error .stackUnderflow s := dif_neg hsome
    have hfail' : Stack.pop s' = .error .stackUnderflow s' := dif_neg hnone
    exact .intro_error hfail hfail' hs

theorem stack_popN (count : Nat) :
    Mirrors (v.Stacks v.height) (v.Stacks v.height) (v.Stacks v.height)
      v.Excuses (Stack.popN count) (Stack.popN count) := by
  intro s s' hs
  have hsize := hs.size_eq
  have hfloor := hs.floor_eq
  have hreach := hs.floor_le
  have havailable : s'.available = s.available := by
    unfold Stack.available
    rw [hsize, hfloor]
  by_cases henough : count ≤ s.available
  · have henough' : count ≤ s'.available := by omega
    have hheight := hs.height_le_size
    have hrest : v.height ≤ s.values.size - count := by
      unfold Stack.available at henough
      omega
    have hargs : s'.values.extract (s.values.size - count) s.values.size =
        s.values.extract (s.values.size - count) s.values.size := by
      apply Array.toList_inj.1
      rw [Array.toList_extract, Array.toList_extract,
        List.extract_eq_take_drop, List.extract_eq_take_drop, hs.drop_eq hrest]
    have hpop' : Stack.popN count s' =
        .ok (s'.values.extract (s'.values.size - count) s'.values.size)
          { s' with values := s'.values.take (s'.values.size - count) } :=
      if_pos henough'
    rw [hsize, hargs] at hpop'
    exact .intro_ok (if_pos henough) hpop' (hs.take hrest)
  · have hfew : ¬ count ≤ s'.available := by omega
    have hfail : Stack.popN count s = .error .stackUnderflow s :=
      if_neg henough
    have hfail' : Stack.popN count s' = .error .stackUnderflow s' :=
      if_neg hfew
    exact .intro_error hfail hfail' hs

/-- The value that is looked at is the same. -/
theorem Stacks.peek_eq (hs : v.Stacks v.height s s') (depth : Nat) :
    s.peek depth = s'.peek depth := by
  have hsize := hs.size_eq
  have hfloor := hs.floor_eq
  have hreach := hs.floor_le
  unfold Stack.peek Stack.available
  by_cases hdepth : depth < s.values.size - s.floor
  · have hdepth' : depth < s'.values.size - s'.floor := by omega
    rw [dif_pos hdepth, dif_pos hdepth']
    simp only [hsize]
    rw [hs.getElem_eq (by omega) (by omega) (by omega)]
  · have hdepth' : ¬ depth < s'.values.size - s'.floor := by omega
    rw [dif_neg hdepth, dif_neg hdepth']

/-! ## The heap -/

/-- An allocation of an object that holds given values. -/
theorem heap_allocate {a : Action Heap UInt16} {kind : ObjectKind}
    {contents : Array Value}
    (ha : ∀ h : Heap, h.Laid → a h = Heap.allocateWith kind contents h) :
    Mirrors v.Heaps v.Heaps v.Heaps v.Excuses a a := by
  intro h h' hh
  obtain ⟨hl, capacity, rfl, hle, heq⟩ := hh
  have ha' := ha _ (hl.withCapacity hle)
  replace ha := ha h hl
  have hfree : h.free ≤ (h.withCapacity capacity).free := by
    unfold Heap.free Arena.remaining
    show _ ≤ (h.arena.withCapacity capacity).capacity - h.arena.top
    rw [Arena.capacity_withCapacity hle]
    exact Nat.sub_le_sub_right hle _
  by_cases hroom : h.objects.size < Heap.maxObjects ∧ contents.size ≤ h.free
  · have hroom' : h.objects.size < Heap.maxObjects ∧
        contents.size ≤ (h.withCapacity capacity).free :=
      ⟨hroom.1, Nat.le_trans hroom.2 hfree⟩
    have hcapacity := hl.capacity_extend kind hroom.2
    refine .intro_ok (ha.trans (if_pos hroom)) (ha'.trans (if_pos hroom'))
      ⟨hl.extend kind hroom.1 hroom.2, capacity,
        hl.extend_withCapacity hle kind hroom.2, ?_, ?_⟩
    · rw [hcapacity]
      exact hle
    · rw [hcapacity]
      exact heq
  · have hfail : a h = .error (.heapExhausted contents.size h.free) h.refuse :=
      ha.trans (if_neg hroom)
    by_cases hsize : v.config'.heapSize = v.config.heapSize
    · obtain rfl := heq hsize
      rw [Heap.withCapacity_self]
      exact .intro_error hfail hfail
        ⟨hl.refuse, h.capacity, (Heap.withCapacity_self _).symm, hle, heq⟩
    · exact .intro_excused hfail hsize

theorem heap_store (handle : UInt16) (index : Nat) (x : Value) :
    Mirrors v.Heaps v.Heaps v.Heaps v.Excuses (Heap.store handle index x)
      (Heap.store handle index x) := by
  intro h h' hh
  obtain ⟨hl, capacity, rfl, hle, heq⟩ := hh
  unfold Follows Ends Heap.store
  rw [Heap.header_withCapacity]
  cases hheader : h.header handle with
  | error e => exact .inr ⟨_, rfl, hl, capacity, rfl, hle, heq⟩
  | ok entry =>
    have hentry := Heap.header_ok hheader
    by_cases hindex : index < entry.len
    · simp only [if_pos hindex]
      refine ⟨_, rfl, hl.write hentry hindex x, capacity,
        hl.write_withCapacity hentry hindex x, ?_, ?_⟩
      · rw [Heap.capacity_write]
        exact hle
      · rw [Heap.capacity_write]
        exact heq
    · simp only [if_neg hindex]
      exact .inr ⟨_, rfl, hl, capacity, rfl, hle, heq⟩

/-! ## Operations on the store -/

namespace Uniform

theorem push (x : Value) :
    v.Uniform δ k (Store.push x) (Store.push x) :=
  Uniform.onStack (stack_push x)

theorem pop :
    v.Uniform δ v.height Store.pop Store.pop :=
  Uniform.onStack stack_pop

theorem popN (count : Nat) :
    v.Uniform δ v.height (Store.onStack (Stack.popN count))
      (Store.onStack (Stack.popN count)) :=
  Uniform.onStack (stack_popN count)

/-- A value that is taken off the stack and read as something else. -/
theorem stack_popAs (r : Value → Except Fault α) :
    Mirrors (v.Stacks v.height) (v.Stacks v.height) (v.Stacks v.height)
      v.Excuses (Stack.pop >>= fun x => Action.lift (r x))
      (Stack.pop >>= fun x => Action.lift (r x)) :=
  stack_pop.bind fun x => Mirrors.lift (r x) fun _ _ hs => hs

theorem popInt (op : String) :
    v.Uniform δ v.height (Store.popInt op) (Store.popInt op) :=
  Uniform.onStack (stack_popAs (Value.asInt op))

theorem popFloat (op : String) :
    v.Uniform δ v.height (Store.popFloat op) (Store.popFloat op) :=
  Uniform.onStack (stack_popAs (Value.asFloat op))

theorem popHandle (op : String) :
    v.Uniform δ v.height (Store.popHandle op) (Store.popHandle op) :=
  pop.bind fun x => Uniform.lift (x.asHandle op)

theorem peek (depth : Nat) :
    v.Uniform δ v.height (Store.peek depth) (Store.peek depth) :=
  Uniform.read fun _ _ hs => hs.stack.peek_eq depth

/-- A result that is read off the heap and does not depend on the
capacity. -/
theorem readHeap {f : Heap → Except Fault α}
    (hf : ∀ h capacity, f (h.withCapacity capacity) = f h) :
    v.Uniform δ k (Store.readHeap f) (Store.readHeap f) := by
  apply Uniform.read
  intro s s' hs
  obtain ⟨-, capacity, heq, -⟩ := hs.heap
  rw [heq, hf]

theorem loadSlot (handle : UInt16) (index : Nat) :
    v.Uniform δ k (Store.loadSlot handle index)
      (Store.loadSlot handle index) :=
  readHeap fun _ _ => Heap.load_withCapacity index

theorem storeSlot (handle : UInt16) (index : Nat) (x : Value) :
    v.Uniform δ k (Store.storeSlot handle index x)
      (Store.storeSlot handle index x) :=
  Uniform.onHeap (heap_store handle index x)

theorem print (text : String) :
    v.Uniform δ k (Store.print text) (Store.print text) := by
  apply Mirrors.modify
  intro s s' hs
  refine ⟨hs.stack, hs.heap, ?_, hs.log_eq, hs.devices_eq⟩
  simp only [hs.console_eq]

/-- Both sides record the same message. -/
theorem record (level : Level) (target : String) (text : Unit → String) :
    v.Uniform δ k (Store.record level target text)
      (Store.record level target text) := by
  apply Mirrors.modify
  intro s s' hs
  refine ⟨hs.stack, hs.heap, hs.console_eq, ?_, hs.devices_eq⟩
  intro hw
  simp only [hs.log_eq hw]

end Uniform

end Variation

end SlotVm
