import SlotVm.Proofs.Store.Change

/-!
# Operations on the store

An instruction is a row of operations on the store, and each operation has
one statement here.  All of them are about an instruction that starts in a
sound store `s` and has come to a store `t` without writing anything that
was there; `Store.Ready` bundles what they assume about `s`.

The statements have one shape.  If the operation succeeds, the change so far
is still `Quiet` and the result has an origin in `s`.  If it fails, the
instruction stops there: `Store.Stopped` says that it has written nothing and
that the fault is one that it may raise.

`Fault.Common` are the faults that any instruction may raise.  The others
have to be argued for where they come up: an operation on a slot of an
object asks for `slotOutOfBounds`, and no operation raises
`invalidReference`, because the handles that an instruction can get hold of
are grounded.
-/

namespace SlotVm

/-- Faults that do not depend on which instruction is executed. -/
def Fault.Common : Fault → Prop
  | .unknownClass _ | .slotOutOfBounds .. | .invalidReference _
  | .invalidConstant _ | .invalidImage _ | .invalidConfig _ | .io _ => False
  | _ => True

namespace Value

variable {v : Value} {op : String} {e : Fault} {r : UInt16}

theorem asInt_error (h : v.asInt op = .error e) : e.Common := by
  cases v <;> cases h <;> trivial

/-- An unwritten slot reads as zero. -/
theorem asInt_ok {n : Int32} (h : v.asInt op = .ok n) :
    v = .int n ∨ v = .zero ∧ n = 0 := by
  cases v <;> cases h
  · exact .inr ⟨rfl, rfl⟩
  · exact .inl rfl

theorem asFloat_error (h : v.asFloat op = .error e) : e.Common := by
  cases v <;> cases h <;> trivial

theorem asHandle_error (h : v.asHandle op = .error e) : e.Common := by
  cases v <;> cases h <;> trivial

theorem asHandle_ok (h : v.asHandle op = .ok r) : v = .ref r := by
  cases v <;> cases h
  rfl

end Value

namespace Store

open SlotVm.Action

variable {δ α : Type} {p : Program} {K : Value → Prop} {W : UInt16 → Prop}
variable {statics : UInt16} {s t : Store δ} {F : Fault → Prop}

/-- What an instruction starts from: a sound store, grounded values besides,
and the faults that it may raise. -/
structure Ready (p : Program) (K : Value → Prop) (statics : UInt16)
    (s : Store δ) (F : Fault → Prop) : Prop where
  sound : s.Sound p statics
  known : ∀ v, K v → v.Grounded p statics s.heap
  common : ∀ e, e.Common → F e

/-- The instruction has stopped at a fault that it may raise, and has
written nothing. -/
def Stopped (p : Program) (K : Value → Prop) (s : Store δ)
    (F : Fault → Prop) (e : Fault) (t : Store δ) : Prop :=
  Quiet p K s t ∧ F e

/-! ## Taking operands off the stack -/

theorem Quiet.takes_self (ht : Quiet p K s t) : Takes p K s t t.stack :=
  ⟨ht.stack.bounded.above_self, ht.operands⟩

/-- Operands at the top are given up. -/
theorem Change.takes_lower (hc : Change p K W s t) {stack : Stack}
    {top : List Value} (habove : t.stack.Above stack)
    (hoperands : t.stack.operands = stack.operands ++ top) :
    Takes p K s t stack := by
  refine ⟨habove, ?_⟩
  intro v hv
  apply hc.operands
  rw [hoperands]
  exact List.mem_append_left _ hv

/-- What `pop` takes off the stack has an origin. -/
theorem Quiet.stack_pop (ht : Quiet p K s t) :
    Ends Stack.pop t.stack
      (fun v stack => Takes p K s t stack ∧ Origin p K s t.heap v ∧
        t.stack.operands = stack.operands ++ [v])
      (fun e stack => Takes p K s t stack ∧ e.Common) := by
  apply (Stack.pop_ends ht.stack.bounded).mono
  · intro v stack hend
    obtain ⟨habove, hoperands⟩ := hend
    have hv : v ∈ t.stack.operands := by
      rw [hoperands]
      exact List.mem_concat_self
    exact ⟨ht.takes_lower habove hoperands, ht.operands v hv, hoperands⟩
  · intro e stack hend
    obtain ⟨rfl, -, rfl⟩ := hend
    exact ⟨ht.takes_self, trivial⟩

/-- A value that is taken off the stack and read as something else. -/
theorem Quiet.stack_pop_as (ht : Quiet p K s t)
    (read : Value → Except Fault α)
    (herror : ∀ v e, read v = .error e → e.Common) :
    Ends (Stack.pop >>= fun v => Action.lift (read v)) t.stack
      (fun x stack => Takes p K s t stack ∧
        ∃ v, Origin p K s t.heap v ∧ read v = .ok x)
      (fun e stack => Takes p K s t stack ∧ e.Common) := by
  refine ht.stack_pop.bind ?_
  intro v stack hend
  obtain ⟨hstack, hv, -⟩ := hend
  apply Ends.lift
  · intro x hx
    exact ⟨hstack, v, hv, hx⟩
  · intro e he
    exact ⟨hstack, herror v e he⟩

/-- What is pushed has an origin. -/
theorem Quiet.stack_push (ht : Quiet p K s t) {v : Value}
    (hv : Origin p K s t.heap v) :
    Ends (Stack.push v) t.stack (fun _ stack => Takes p K s t stack ∧ True)
      (fun e stack => Takes p K s t stack ∧ e.Common) := by
  apply (Stack.push_ends ht.stack.bounded v).mono
  · intro _ stack hend
    obtain ⟨habove, hoperands⟩ := hend
    refine ⟨⟨habove, ?_⟩, trivial⟩
    rw [hoperands]
    intro w hw
    rcases List.mem_append.1 hw with hold | hnew
    · exact ht.operands w hold
    · rw [List.mem_singleton.1 hnew]
      exact hv
  · intro e stack hend
    obtain ⟨rfl, -, rfl⟩ := hend
    exact ⟨ht.takes_self, trivial⟩

/-- A push where there is room. -/
theorem push_room {stack : Stack} {v : Value} {fail : Fault → Store δ → Prop}
    (hstack : t.stack = stack) (hroom : stack.size < stack.limit) :
    Ends (Store.push v) t
      (fun _ u => u =
        { t with stack := { stack with values := stack.values.push v } })
      fail := by
  unfold Store.push
  apply Ends.onPart
  unfold Ends
  rw [hstack, Stack.push_room hroom]

/-! ## Slots -/

/-- What a slot holds has an origin. -/
theorem Quiet.origin_of_load (ht : Quiet p K s t) {r : UInt16} {i : Nat}
    {v : Value} (hload : t.heap.load r i = .ok v) :
    Origin p K s t.heap v := by
  obtain ⟨entry, -, -, hv⟩ := Heap.load_ok ht.laid hload
  rcases ht.slots _ v hv with hold | ⟨ho, -⟩
  · exact .slot (Array.mem_of_getElem? hold)
  · exact ho

/-- Reading a slot of an object that the heap has. -/
theorem Quiet.loadSlot (ht : Quiet p K s t) {r : UInt16} (index : Nat)
    (hr : t.heap.Contains r)
    (hF : ∀ entry, t.heap.objects[r.toNat]? = some entry →
      entry.len ≤ index → F (.slotOutOfBounds index entry.len)) :
    Ends (Store.loadSlot r index) t
      (fun v u => u = t ∧ t.heap.load r index = .ok v ∧
        Origin p K s t.heap v)
      (Stopped p K s F) := by
  apply Ends.read
  · intro v hv
    exact ⟨rfl, hv, ht.origin_of_load hv⟩
  · intro e he
    rcases Heap.load_error he with ⟨hnot, -⟩ | ⟨entry, hentry, hlen, rfl⟩
    · exact absurd hr hnot
    · exact ⟨ht, hF entry hentry hlen⟩

/-- Writing a slot of an object in `W` that the heap has. -/
theorem Quiet.storeSlot (ht : Quiet p K s t) {r : UInt16} (index : Nat)
    {v : Value} (hr : t.heap.Contains r) (hW : W r)
    (hv : Origin p K s t.heap v)
    (hF : ∀ entry, t.heap.objects[r.toNat]? = some entry →
      entry.len ≤ index → F (.slotOutOfBounds index entry.len)) :
    Ends (Store.storeSlot r index v) t
      (fun _ u => Change p K W s u ∧ u.stack = t.stack)
      (Stopped p K s F) := by
  unfold Store.storeSlot Store.onHeap
  apply Ends.onPart
  apply (Heap.store_ends t.heap r index v).mono
  · intro _ heap hend
    obtain ⟨entry, hentry, hindex, rfl⟩ := hend
    exact ⟨ht.change.write hentry hindex hW hv, rfl⟩
  · intro e heap hend
    obtain ⟨rfl, ⟨hnot, -⟩ | ⟨entry, hentry, hlen, rfl⟩⟩ := hend
    · exact absurd hr hnot
    · exact ⟨ht, hF entry hentry hlen⟩

namespace Ready

variable (h : Ready p K statics s F)

include h

theorem of_same (hst : Same s t) : Ready p K statics t F where
  sound := h.sound.of_same hst
  known := by
    rw [hst.heap_eq]
    exact h.known
  common := h.common

theorem quiet_self : Quiet p K s s :=
  .refl h.sound.bounded h.sound.laid

/-- What an instruction gets hold of is grounded. -/
theorem grounded {v : Value} (ht : Quiet p K s t)
    (hv : Origin p K s t.heap v) : v.Grounded p statics t.heap :=
  hv.grounded h.sound h.known ht.toChange

/-- A handle that an instruction gets hold of names an object. -/
theorem entry_of_origin {r : UInt16} (ht : Quiet p K s t)
    (hr : Origin p K s t.heap (.ref r)) :
    ∃ entry, t.heap.objects[r.toNat]? = some entry :=
  Heap.contains_iff.1 (h.grounded ht hr).1

/-- The store stays sound. -/
theorem sound_of_quiet (ht : Quiet p K s t) : t.Sound p statics :=
  ht.toChange.sound h.sound h.known

theorem ne_statics {r : UInt16} (ht : Quiet p K s t)
    (hr : Origin p K s t.heap (.ref r)) : r ≠ statics :=
  (h.grounded ht hr).2

/-! ## The operand stack -/

/-- An operation of the stack carries over to the store. -/
theorem onStack {a : Action Stack α} {post : α → Stack → Prop}
    (ht : Quiet p K s t)
    (ha : Ends a t.stack
      (fun x stack => Takes p K s t stack ∧ post x stack)
      (fun e stack => Takes p K s t stack ∧ e.Common)) :
    Ends (Store.onStack a) t
      (fun x u => Quiet p K s u ∧ u.heap = t.heap ∧ post x u.stack)
      (Stopped p K s F) := by
  apply Ends.onPart
  apply ha.mono
  · intro x stack hend
    obtain ⟨hstack, hpost⟩ := hend
    exact ⟨⟨ht.setStack hstack, ht.output_eq⟩, rfl, hpost⟩
  · intro e stack hend
    obtain ⟨hstack, he⟩ := hend
    exact ⟨⟨ht.setStack hstack, ht.output_eq⟩, h.common e he⟩

/-- Pushing a value with an origin. -/
theorem push {v : Value} (ht : Quiet p K s t)
    (hv : Origin p K s t.heap v) :
    Ends (Store.push v) t (fun _ u => Quiet p K s u ∧ u.heap = t.heap)
      (Stopped p K s F) :=
  (h.onStack ht (ht.stack_push hv)).imp fun _ _ hu => ⟨hu.1, hu.2.1⟩

/-- Taking the last operand. -/
theorem pop (ht : Quiet p K s t) :
    Ends Store.pop t
      (fun v u => Quiet p K s u ∧ u.heap = t.heap ∧
        Origin p K s t.heap v ∧
        t.stack.operands = u.stack.operands ++ [v])
      (Stopped p K s F) :=
  h.onStack ht ht.stack_pop

/-- Taking an integer. -/
theorem popInt (op : String) (ht : Quiet p K s t) :
    Ends (Store.popInt op) t (fun _ u => Quiet p K s u ∧ u.heap = t.heap)
      (Stopped p K s F) := by
  have ha := ht.stack_pop_as (Value.asInt op) fun _ _ => Value.asInt_error
  exact (h.onStack ht ha).imp fun _ _ hu => ⟨hu.1, hu.2.1⟩

/-- Taking a float. -/
theorem popFloat (op : String) (ht : Quiet p K s t) :
    Ends (Store.popFloat op) t (fun _ u => Quiet p K s u ∧ u.heap = t.heap)
      (Stopped p K s F) := by
  have ha := ht.stack_pop_as (Value.asFloat op) fun _ _ => Value.asFloat_error
  exact (h.onStack ht ha).imp fun _ _ hu => ⟨hu.1, hu.2.1⟩

/-- Taking a handle. -/
theorem popHandle (op : String) (ht : Quiet p K s t) :
    Ends (Store.popHandle op) t
      (fun r u => Quiet p K s u ∧ u.heap = t.heap ∧
        Origin p K s t.heap (.ref r))
      (Stopped p K s F) := by
  refine (h.pop ht).bind ?_
  intro v u hend
  obtain ⟨hu, hheap, hv, -⟩ := hend
  apply Ends.lift
  · intro r hr
    rw [← Value.asHandle_ok hr]
    exact ⟨hu, hheap, hv⟩
  · intro e he
    exact ⟨hu, h.common e (Value.asHandle_error he)⟩

/-- Looking at an operand. -/
theorem peek (depth : Nat) (ht : Quiet p K s t) :
    Ends (Store.peek depth) t
      (fun v u => u = t ∧ Origin p K s t.heap v ∧
        depth < t.stack.operands.length)
      (Stopped p K s F) := by
  apply Ends.read
  · intro v hv
    obtain ⟨hmem, hdepth⟩ := Stack.peek_ok hv
    exact ⟨rfl, ht.operands v hmem, hdepth⟩
  · intro e he
    rw [Stack.peek_error he]
    exact ⟨ht, h.common _ trivial⟩

/-! ## The heap -/

/-- Allocating an object of an allowed kind that holds given values. -/
theorem allocateWith {a : Action Heap UInt16} {kind : ObjectKind}
    {contents : Array Value} (ht : Quiet p K s t) (hkind : p.Allocates kind)
    (ha : a t.heap = Heap.allocateWith kind contents t.heap)
    (hcontents : ∀ v ∈ contents, ∀ heap : Heap,
      (∃ entry ∈ heap.objects, entry.kind = kind) → Origin p K s heap v) :
    Ends (Store.onHeap a) t
      (fun r u => Quiet p K s u ∧ Origin p K s u.heap (.ref r) ∧
        u.stack = t.stack ∧ t.heap.GrowsTo u.heap)
      (Stopped p K s F) := by
  apply Ends.onPart
  apply Ends.of_eq ha
  apply (Heap.allocateWith_ends t.heap kind contents).mono
  · intro r heap hend
    obtain ⟨hcount, hfree, hr, rfl⟩ := hend
    have horigin : ∀ v ∈ contents,
        Origin p K s (t.heap.extend kind contents) v := by
      intro v hv
      refine hcontents v hv _ ⟨⟨t.heap.used, contents.size, kind⟩, ?_, rfl⟩
      rw [Heap.objects_extend]
      exact Array.mem_push_self
    have hc := ht.toChange.extend hkind hcount hfree horigin
    refine ⟨⟨hc, ht.output_eq⟩, .fresh ?_ ?_, rfl, ?_⟩
    · rw [hr]
      exact ht.objects_le
    · simp [Heap.Contains, hr]
    · exact fun _ _ hentry => Heap.extend_getElem? _ _ hentry
  · intro e heap hend
    obtain ⟨rfl, rfl, -⟩ := hend
    exact ⟨⟨ht.toChange.refuse, ht.output_eq⟩, h.common _ trivial⟩

/-- Allocating an object of an allowed kind, zeroed or not. -/
theorem allocate {kind : ObjectKind} (zeroed : Bool) (count : Nat)
    (ht : Quiet p K s t) (hkind : p.Allocates kind)
    (hfresh : ∀ heap : Heap, (∃ entry ∈ heap.objects, entry.kind = kind) →
      Origin p K s heap (Heap.freshValue kind zeroed)) :
    Ends (Store.onHeap (Heap.allocateKind kind zeroed count)) t
      (fun r u => Quiet p K s u ∧ Origin p K s u.heap (.ref r) ∧
        u.stack = t.stack ∧ t.heap.GrowsTo u.heap)
      (Stopped p K s F) := by
  apply h.allocateWith ht hkind (ht.laid.allocateKind_eq kind zeroed count)
  intro v hv heap hheap
  rw [Array.eq_of_mem_replicate hv]
  exact hfresh heap hheap

/-- Reading a header. -/
theorem header {r : UInt16} (ht : Quiet p K s t)
    (hr : Origin p K s t.heap (.ref r)) :
    Ends (Store.readHeap (·.header r)) t
      (fun entry u => u = t ∧ t.heap.objects[r.toNat]? = some entry)
      (Stopped p K s F) := by
  obtain ⟨entry, hentry⟩ := h.entry_of_origin ht hr
  apply Ends.read
  · intro entry' hentry'
    exact ⟨rfl, Heap.header_ok hentry'⟩
  · intro e he
    cases (Heap.header_of_entry hentry).symm.trans he

/-- Reading a length. -/
theorem len {r : UInt16} (ht : Quiet p K s t)
    (hr : Origin p K s t.heap (.ref r)) :
    Ends (Store.readHeap (·.len r)) t
      (fun n u => u = t ∧ ∃ entry,
        t.heap.objects[r.toNat]? = some entry ∧ entry.len = n)
      (Stopped p K s F) := by
  obtain ⟨entry, hentry⟩ := h.entry_of_origin ht hr
  apply Ends.read
  · intro n hn
    cases (Heap.len_of_entry hentry).symm.trans hn
    exact ⟨rfl, entry, hentry, rfl⟩
  · intro e he
    cases (Heap.len_of_entry hentry).symm.trans he

end Ready

end Store

end SlotVm
