import SlotVm.Machine.State
import SlotVm.Proofs.Heap
import SlotVm.Proofs.Integers
import SlotVm.Proofs.Stack

/-!
# What an instruction can do to the store

`Store.Change` relates the store `s` in which an instruction starts to a
store `t` that it reaches.  It says everything that the instructions have in
common: the stack differs above its floor only, objects are added and never
moved, the console keeps its input, and every value that was not there comes
from somewhere.

`Store.Origin` lists where a value can come from.  A value that is copied is
an operand, the content of a slot, or known from outside the store, which
for a machine are the local variables.  All other values are new: numbers,
the handle of an object that the instruction itself allocated, and a string
of the constant pool.  Floats and integers that are not of the width need a
reason (`Store.AdmitsFloats`, `Store.AdmitsInt`).

There are three groups of lemmas.

* How a change is extended by one more operation: `Change.setStack`,
  `Change.extend`, `Change.refuse` and `Change.write`.  The log does not
  count as a part of the store here (`Store.Same`).
* `Store.Sound`, the invariant of the store.  Its values are `Grounded`: a
  handle names an object that is not the block of the static fields, and a
  constant names a string.
* `Change.sound`, which says that a change keeps the invariant, and
  `Change.header_kept`, `Change.slots_kept` and `Change.load_kept`, which say
  what it leaves of the objects that were there.
-/

namespace SlotVm

namespace Heap

variable {h h' : Heap}

/-- The objects of the first heap are in the second one too. -/
def GrowsTo (h h' : Heap) : Prop :=
  ∀ (k : Nat) entry, h.objects[k]? = some entry → h'.objects[k]? = some entry

/-- A heap that stays the same. -/
theorem GrowsTo.of_eq (heq : h' = h) : h.GrowsTo h' := by
  rw [heq]
  exact fun _ _ hentry => hentry

/-- The table does not shrink. -/
theorem GrowsTo.objects_le (hgrows : h.GrowsTo h') :
    h.objects.size ≤ h'.objects.size := by
  rcases Nat.eq_zero_or_pos h.objects.size with hzero | hpos
  · omega
  · have hlast : h.objects.size - 1 < h.objects.size := by omega
    have hentry := hgrows _ _ (Array.getElem?_eq_getElem hlast)
    have hlt := (Array.getElem?_eq_some_iff.1 hentry).1
    omega

/-- The heap has an array whose elements have 16 bits. -/
def HasShorts (h : Heap) : Prop :=
  ∃ entry ∈ h.objects, entry.kind = .array .char ∨ entry.kind = .array .short

theorem HasShorts.mono (hshorts : h.HasShorts) (hgrows : h.GrowsTo h') :
    h'.HasShorts := by
  obtain ⟨entry, hentry, hkind⟩ := hshorts
  obtain ⟨k, hk⟩ := Array.getElem?_of_mem hentry
  exact ⟨entry, Array.mem_of_getElem? (hgrows k entry hk), hkind⟩

end Heap

/-- An image under this configuration can allocate objects of the kind. -/
def Program.Allocates (p : Program) : ObjectKind → Prop
  | .object c => (p.image.class? c).isSome = true
  | .array .float => p.config.features.float = true
  | .array _ | .chunk => True

namespace Store

variable {δ : Type} {p : Program} {K : Value → Prop} {W W' : UInt16 → Prop}
variable {s t u : Store δ} {h h' : Heap} {v : Value} {r : UInt16}

/-- Floats can be in the store: the profile has them, or there is an array
of them. -/
def AdmitsFloats (p : Program) (s : Store δ) : Prop :=
  p.config.features.float = true ∨
    ∃ entry ∈ s.heap.objects, entry.kind = .array .float

/-- An instruction that starts in `s` and has come to the heap `h` can have
made the integer: it is of the width, it has 16 bits and there is an array
for it, or it is the number of bytes that can be read. -/
def AdmitsInt (p : Program) (s : Store δ) (h : Heap) (n : Int32) : Prop :=
  p.config.word.InRange n ∨ IsShort n ∧ h.HasShorts ∨
    n = Int32.ofNat s.console.available

/-- Where a value can come from that an instruction puts somewhere.  It
starts in `s`, knows the values `K` besides, and has allocated what is in
`h` and not in the heap of `s`. -/
inductive Origin (p : Program) (K : Value → Prop) (s : Store δ) (h : Heap) :
    Value → Prop where
  | known {v : Value} : K v → Origin p K s h v
  | operand {v : Value} : v ∈ s.stack.operands → Origin p K s h v
  | slot {v : Value} : v ∈ s.heap.arena.slots → Origin p K s h v
  | null : Origin p K s h .null
  | zero : Origin p K s h .zero
  | int (n : Int32) : s.AdmitsInt p h n → Origin p K s h (.int n)
  | float (x : Float32) : s.AdmitsFloats p → Origin p K s h (.float x)
  | fresh {r : UInt16} : s.heap.objects.size ≤ r.toNat → h.Contains r →
      Origin p K s h (.ref r)
  | pooled {i : UInt16} {text : String} : p.image.constants[i.toNat]? = some (.str text) →
      Origin p K s h (.const i)

/-- What an instruction that starts in `s` and has come to `t` can have
done.  Of the objects that were there it has written those in `W` only. -/
structure Change (p : Program) (K : Value → Prop) (W : UInt16 → Prop)
    (s t : Store δ) : Prop where
  stack : s.stack.Above t.stack
  operands : ∀ v ∈ t.stack.operands, Origin p K s t.heap v
  laid : t.heap.Laid
  capacity_eq : t.heap.capacity = s.heap.capacity
  kept : ∀ (k : Nat) entry, s.heap.objects[k]? = some entry →
    t.heap.objects[k]? = some entry
  added : ∀ (k : Nat) entry, t.heap.objects[k]? = some entry →
    s.heap.objects[k]? = some entry ∨
      s.heap.objects.size ≤ k ∧ p.Allocates entry.kind
  slots_le : s.heap.arena.slots.size ≤ t.heap.arena.slots.size
  slots : ∀ (j : Nat) v, t.heap.arena.slots[j]? = some v →
    s.heap.arena.slots[j]? = some v ∨
      Origin p K s t.heap v ∧
        (s.heap.arena.slots.size ≤ j ∨ ∃ r, W r ∧ t.heap.Owns r j)
  input_eq : t.console.input = s.console.input

/-- A change that writes no object that was there, and prints nothing. -/
structure Quiet (p : Program) (K : Value → Prop) (s t : Store δ) : Prop
    extends Change p K (fun _ => False) s t where
  output_eq : t.console.output = s.console.output

/-- The stack can take the place of the one in `t`. -/
structure Takes (p : Program) (K : Value → Prop) (s t : Store δ)
    (stack : Stack) : Prop where
  above : t.stack.Above stack
  operands : ∀ v ∈ stack.operands, Origin p K s t.heap v

/-! ## Extending a change -/

/-- An integer that has been wrapped. -/
theorem Origin.wrapped (n : Int32) :
    Origin p K s h (.int (p.config.word.wrap n)) :=
  .int _ (.inl (p.config.word.inRange_wrap n))

/-- An integer of every width. -/
theorem Origin.small {n : Int32} (hn : IsSmall n) : Origin p K s h (.int n) :=
  .int n (.inl (p.config.word.inRange_of_small hn))

/-- An origin stays one when objects are added. -/
theorem Origin.mono (ho : Origin p K s h v) (hgrows : h.GrowsTo h') :
    Origin p K s h' v := by
  cases ho with
  | known hv => exact .known hv
  | operand hv => exact .operand hv
  | slot hv => exact .slot hv
  | null => exact .null
  | zero => exact .zero
  | int n hn =>
    rcases hn with hrange | ⟨hshort, hshorts⟩ | havailable
    · exact .int n (.inl hrange)
    · exact .int n (.inr (.inl ⟨hshort, hshorts.mono hgrows⟩))
    · exact .int n (.inr (.inr havailable))
  | float x hx => exact .float x hx
  | fresh hnew hr =>
    exact .fresh hnew (Nat.lt_of_lt_of_le hr hgrows.objects_le)
  | pooled hi => exact .pooled hi

/-- Nothing has been done yet. -/
theorem Change.refl (hb : s.stack.Bounded) (hl : s.heap.Laid) :
    Change p K W s s where
  stack := hb.above_self
  operands _ hv := .operand hv
  laid := hl
  capacity_eq := rfl
  kept _ _ hentry := hentry
  added _ _ hentry := .inl hentry
  slots_le := Nat.le_refl _
  slots _ _ hv := .inl hv
  input_eq := rfl

theorem Quiet.refl (hb : s.stack.Bounded) (hl : s.heap.Laid) :
    Quiet p K s s :=
  ⟨.refl hb hl, rfl⟩

/-- More objects may be written. -/
theorem Change.mono (hc : Change p K W s t) (hW : ∀ r, W r → W' r) :
    Change p K W' s t where
  stack := hc.stack
  operands := hc.operands
  laid := hc.laid
  capacity_eq := hc.capacity_eq
  kept := hc.kept
  added := hc.added
  slots_le := hc.slots_le
  slots := by
    intro j v hv
    rcases hc.slots j v hv with hold | ⟨ho, hj | ⟨r, hr, howns⟩⟩
    · exact .inl hold
    · exact .inr ⟨ho, .inl hj⟩
    · exact .inr ⟨ho, .inr ⟨r, hW r hr, howns⟩⟩
  input_eq := hc.input_eq

theorem Quiet.change (hq : Quiet p K s t) : Change p K W s t :=
  hq.toChange.mono fun _ hr => hr.elim

/-- A change is about the stack, the heap and the input only. -/
theorem Change.congr (hc : Change p K W s t) (hstack : u.stack = t.stack)
    (hheap : u.heap = t.heap) (hinput : u.console.input = t.console.input) :
    Change p K W s u := by
  constructor
  · rw [hstack]; exact hc.stack
  · rw [hstack, hheap]; exact hc.operands
  · rw [hheap]; exact hc.laid
  · rw [hheap]; exact hc.capacity_eq
  · rw [hheap]; exact hc.kept
  · rw [hheap]; exact hc.added
  · rw [hheap]; exact hc.slots_le
  · rw [hheap]; exact hc.slots
  · rw [hinput]; exact hc.input_eq

/-- The stores differ in their logs at most. -/
structure Same (s t : Store δ) : Prop where
  stack_eq : t.stack = s.stack
  heap_eq : t.heap = s.heap
  console_eq : t.console = s.console

theorem Origin.of_same (hst : Same s t) (ho : Origin p K t h v) :
    Origin p K s h v := by
  cases ho with
  | known hv => exact .known hv
  | operand hv =>
    rw [hst.stack_eq] at hv
    exact .operand hv
  | slot hv =>
    rw [hst.heap_eq] at hv
    exact .slot hv
  | null => exact .null
  | zero => exact .zero
  | int n hn =>
    unfold AdmitsInt at hn
    rw [hst.console_eq] at hn
    exact .int n hn
  | float x hx =>
    unfold AdmitsFloats at hx
    rw [hst.heap_eq] at hx
    exact .float x hx
  | fresh hnew hr =>
    rw [hst.heap_eq] at hnew
    exact .fresh hnew hr
  | pooled hi => exact .pooled hi

/-- A change can be said to start where the log was a different one. -/
theorem Change.of_same (hst : Same s t) (hc : Change p K W t u) :
    Change p K W s u := by
  constructor
  · rw [← hst.stack_eq]; exact hc.stack
  · exact fun v hv => (hc.operands v hv).of_same hst
  · exact hc.laid
  · rw [← hst.heap_eq]; exact hc.capacity_eq
  · rw [← hst.heap_eq]; exact hc.kept
  · rw [← hst.heap_eq]; exact hc.added
  · rw [← hst.heap_eq]; exact hc.slots_le
  · rw [← hst.heap_eq]
    intro j v hv
    rcases hc.slots j v hv with hold | ⟨ho, howner⟩
    · exact .inl hold
    · exact .inr ⟨ho.of_same hst, howner⟩
  · rw [← hst.console_eq]; exact hc.input_eq

theorem Quiet.of_same (hst : Same s t) (hq : Quiet p K t u) :
    Quiet p K s u :=
  ⟨hq.toChange.of_same hst, by rw [hq.output_eq, hst.console_eq]⟩

theorem Change.growsTo (hc : Change p K W s t) : s.heap.GrowsTo t.heap :=
  hc.kept

theorem Change.objects_le (hc : Change p K W s t) :
    s.heap.objects.size ≤ t.heap.objects.size :=
  hc.growsTo.objects_le

/-- The stack is replaced. -/
theorem Change.setStack (hc : Change p K W s t) {stack : Stack}
    (hstack : Takes p K s t stack) : Change p K W s { t with stack } where
  stack := hc.stack.trans hstack.above
  operands := hstack.operands
  laid := hc.laid
  capacity_eq := hc.capacity_eq
  kept := hc.kept
  added := hc.added
  slots_le := hc.slots_le
  slots := hc.slots
  input_eq := hc.input_eq

/-- An object is added. -/
theorem Change.extend (hc : Change p K W s t) {kind : ObjectKind}
    {contents : Array Value} (hkind : p.Allocates kind)
    (hcount : t.heap.objects.size < Heap.maxObjects)
    (hfree : contents.size ≤ t.heap.free)
    (hcontents : ∀ v ∈ contents,
      Origin p K s (t.heap.extend kind contents) v) :
    Change p K W s { t with heap := t.heap.extend kind contents } := by
  have hgrows : t.heap.GrowsTo (t.heap.extend kind contents) :=
    fun _ _ hentry => Heap.extend_getElem? kind contents hentry
  have hsizes := hc.objects_le
  constructor
  · exact hc.stack
  · exact fun v hv => (hc.operands v hv).mono hgrows
  · exact hc.laid.extend kind hcount hfree
  · exact (hc.laid.capacity_extend kind hfree).trans hc.capacity_eq
  · exact fun k entry hentry => hgrows k entry (hc.kept k entry hentry)
  · intro k entry hentry
    simp only [Heap.objects_extend, Array.getElem?_push] at hentry
    split at hentry
    · rename_i hk
      cases hentry
      exact .inr ⟨by omega, hkind⟩
    · exact hc.added k entry hentry
  · have := hc.slots_le
    simp only [hc.laid.slots_extend, Array.size_append]
    omega
  · intro j v hv
    simp only [hc.laid.slots_extend, Array.getElem?_append] at hv
    split at hv
    · rcases hc.slots j v hv with hold | ⟨ho, hj | ⟨r, hr, howns⟩⟩
      · exact .inl hold
      · exact .inr ⟨ho.mono hgrows, .inl hj⟩
      · obtain ⟨entry, hentry, hlo, hhi⟩ := howns
        exact .inr ⟨ho.mono hgrows, .inr ⟨r, hr, entry,
          hgrows _ entry hentry, hlo, hhi⟩⟩
    · have hv' := Array.mem_of_getElem? hv
      have hsize := hc.slots_le
      exact .inr ⟨hcontents v hv', .inl (by omega)⟩
  · exact hc.input_eq

/-- The heap is replaced by one with the same objects.  Its slots are the
old ones, but for those of objects in `W`. -/
theorem Change.setHeap (hc : Change p K W s t) {heap : Heap}
    (hobjects : heap.objects = t.heap.objects)
    (hcapacity : heap.capacity = t.heap.capacity)
    (hlaid : heap.Laid)
    (hslots : ∀ (j : Nat) v, heap.arena.slots[j]? = some v →
      t.heap.arena.slots[j]? = some v ∨
        Origin p K s t.heap v ∧ ∃ r, W r ∧ t.heap.Owns r j) :
    Change p K W s { t with heap } := by
  have hgrows : t.heap.GrowsTo heap := by
    unfold Heap.GrowsTo
    rw [hobjects]
    exact fun _ _ hentry => hentry
  have howner : ∀ {r j}, t.heap.Owns r j → heap.Owns r j := by
    intro r j howns
    unfold Heap.Owns
    rw [hobjects]
    exact howns
  constructor
  · exact hc.stack
  · exact fun v hv => (hc.operands v hv).mono hgrows
  · exact hlaid
  · exact hcapacity.trans hc.capacity_eq
  · rw [hobjects]
    exact hc.kept
  · rw [hobjects]
    exact hc.added
  · rw [hlaid.size_slots, hlaid.used_eq, hobjects, ← hc.laid.used_eq,
      ← hc.laid.size_slots]
    exact hc.slots_le
  · intro j v hv
    rcases hslots j v hv with hsame | ⟨ho, r, hr, howns⟩
    · rcases hc.slots j v hsame with hold | ⟨ho, hj | ⟨r, hr, howns⟩⟩
      · exact .inl hold
      · exact .inr ⟨ho.mono hgrows, .inl hj⟩
      · exact .inr ⟨ho.mono hgrows, .inr ⟨r, hr, howner howns⟩⟩
    · exact .inr ⟨ho.mono hgrows, .inr ⟨r, hr, howner howns⟩⟩
  · exact hc.input_eq

/-- A request is refused. -/
theorem Change.refuse (hc : Change p K W s t) :
    Change p K W s { t with heap := t.heap.refuse } :=
  hc.setHeap rfl rfl hc.laid.refuse fun _ _ hv => .inl hv

/-- A slot of an object in `W` is written. -/
theorem Change.write (hc : Change p K W s t) {entry : Header} {index : Nat}
    (hentry : t.heap.objects[r.toNat]? = some entry)
    (hindex : index < entry.len) (hr : W r) (hv : Origin p K s t.heap v) :
    Change p K W s
      { t with heap := t.heap.write (entry.offset + index) v } := by
  refine hc.setHeap rfl (Heap.capacity_write _ _ v)
    (hc.laid.write hentry hindex v) ?_
  intro j w hw
  simp only [Heap.slots_write, Array.getElem?_setIfInBounds] at hw
  split at hw
  · rename_i hj
    split at hw
    · cases hw
      exact .inr ⟨hv, r, hr, entry, hentry, by omega, by omega⟩
    · cases hw
  · exact .inl hw

/-! ## The invariant -/

end Store

/-- A value that refers to something that is there, and not to the block of
the static fields. -/
def Value.Grounded (p : Program) (statics : UInt16) (h : Heap) :
    Value → Prop
  | .ref r => h.Contains r ∧ r ≠ statics
  | .const i => ∃ text, p.image.constants[i.toNat]? = some (.str text)
  | _ => True

theorem Value.Grounded.mono {p : Program} {statics : UInt16} {h h' : Heap}
    {v : Value} (hv : v.Grounded p statics h)
    (hle : h.objects.size ≤ h'.objects.size) : v.Grounded p statics h' := by
  cases v with
  | ref r => exact ⟨Nat.lt_of_lt_of_le hv.1 hle, hv.2⟩
  | const i => exact hv
  | null | zero | int | float => trivial

namespace Store

variable {δ : Type} {p : Program} {K : Value → Prop} {W : UInt16 → Prop}
variable {s t : Store δ} {v : Value} {statics : UInt16}

/-- The invariant of the store of a machine with this program. -/
structure Sound (p : Program) (statics : UInt16) (s : Store δ) : Prop where
  bounded : s.stack.Bounded
  laid : s.heap.Laid
  values : ∀ v ∈ s.stack.values, v.Grounded p statics s.heap
  slots : ∀ v ∈ s.heap.arena.slots, v.Grounded p statics s.heap
  classes : ∀ entry ∈ s.heap.objects, ∀ c, entry.kind = .object c →
    (p.image.class? c).isSome = true
  statics : s.heap.Contains statics

theorem Sound.of_same (hs : s.Sound p statics) (hst : Same s t) :
    t.Sound p statics := by
  constructor
  · rw [hst.stack_eq]; exact hs.bounded
  · rw [hst.heap_eq]; exact hs.laid
  · rw [hst.stack_eq, hst.heap_eq]; exact hs.values
  · rw [hst.heap_eq]; exact hs.slots
  · rw [hst.heap_eq]; exact hs.classes
  · rw [hst.heap_eq]; exact hs.statics

/-- A stack whose values were all on the old one. -/
theorem Sound.setStack (hs : s.Sound p statics) (hheap : t.heap = s.heap)
    (hb : t.stack.Bounded)
    (hvalues : ∀ v ∈ t.stack.values, v ∈ s.stack.values) :
    t.Sound p statics := by
  constructor
  · exact hb
  · rw [hheap]; exact hs.laid
  · rw [hheap]; exact fun v hv => hs.values v (hvalues v hv)
  · rw [hheap]; exact hs.slots
  · rw [hheap]; exact hs.classes
  · rw [hheap]; exact hs.statics

/-- A value with an origin is grounded. -/
theorem Origin.grounded (hs : s.Sound p statics)
    (hK : ∀ v, K v → v.Grounded p statics s.heap) (hc : Change p K W s t)
    (ho : Origin p K s t.heap v) : v.Grounded p statics t.heap := by
  cases ho with
  | known hv => exact (hK v hv).mono hc.objects_le
  | operand hv =>
    have hmem : v ∈ s.stack.values := s.stack.mem_values_iff.2 (.inr hv)
    exact (hs.values v hmem).mono hc.objects_le
  | slot hv => exact (hs.slots v hv).mono hc.objects_le
  | null | zero | int | float => trivial
  | fresh hnew hr =>
    refine ⟨hr, ?_⟩
    intro heq
    obtain rfl := heq
    have hlt : _ < s.heap.objects.size := hs.statics
    omega
  | pooled hi => exact ⟨_, hi⟩

/-- A change keeps the invariant. -/
theorem Change.sound (hs : s.Sound p statics)
    (hK : ∀ v, K v → v.Grounded p statics s.heap)
    (hc : Change p K W s t) : t.Sound p statics where
  bounded := hc.stack.bounded
  laid := hc.laid
  values := by
    intro v hv
    rcases t.stack.mem_values_iff.1 hv with hbelow | hoperand
    · rw [hc.stack.below_eq] at hbelow
      have hmem : v ∈ s.stack.values := s.stack.mem_values_iff.2 (.inl hbelow)
      exact (hs.values v hmem).mono hc.objects_le
    · exact (hc.operands v hoperand).grounded hs hK hc
  slots := by
    intro v hv
    obtain ⟨j, hj⟩ := Array.getElem?_of_mem hv
    rcases hc.slots j v hj with hold | ⟨ho, _⟩
    · exact (hs.slots v (Array.mem_of_getElem? hold)).mono hc.objects_le
    · exact ho.grounded hs hK hc
  classes := by
    intro entry hentry c hkind
    obtain ⟨k, hk⟩ := Array.getElem?_of_mem hentry
    rcases hc.added k entry hk with hold | ⟨_, hallowed⟩
    · exact hs.classes entry (Array.mem_of_getElem? hold) c hkind
    · rw [hkind] at hallowed
      exact hallowed
  statics := Nat.lt_of_lt_of_le hs.statics hc.objects_le

/-- An object that is not written keeps its slots. -/
theorem Change.slot_kept (hc : Change p K W s t) {r : UInt16} {j : Nat}
    (hl : s.heap.Laid) (hr : ¬ W r) (howns : s.heap.Owns r j) :
    t.heap.arena.slots[j]? = s.heap.arena.slots[j]? := by
  obtain ⟨entry, hentry, hlo, hhi⟩ := howns
  have hend := hl.end_le_used hentry
  have hsize := hc.slots_le
  rw [← hl.size_slots] at hend
  have hj : j < t.heap.arena.slots.size := by omega
  have hv := Array.getElem?_eq_getElem hj
  rcases hc.slots j _ hv with hold | ⟨_, hnew | ⟨r', hr', howns'⟩⟩
  · rw [hv, hold]
  · omega
  · have howns : t.heap.Owns r j := ⟨entry, hc.kept _ _ hentry, hlo, hhi⟩
    rw [hc.laid.owns_unique howns howns'] at hr
    exact absurd hr' hr

/-- No object gets another entry in the table. -/
theorem Change.header_kept (hc : Change p K W s t) {r : UInt16}
    (hcontains : s.heap.Contains r) : t.heap.header r = s.heap.header r := by
  obtain ⟨entry, hentry⟩ := Heap.contains_iff.1 hcontains
  rw [Heap.header_of_entry hentry, Heap.header_of_entry (hc.kept _ _ hentry)]

/-- An object that is not written keeps its contents. -/
theorem Change.slots_kept (hc : Change p K W s t) {r : UInt16}
    (hl : s.heap.Laid) (hr : ¬ W r) (hcontains : s.heap.Contains r) :
    t.heap.slots r = s.heap.slots r := by
  obtain ⟨entry, hentry⟩ := Heap.contains_iff.1 hcontains
  have hentry' := hc.kept _ _ hentry
  rw [hl.slots_of_entry hentry, hc.laid.slots_of_entry hentry']
  have hend := hl.end_le_used hentry
  have hend' := hc.laid.end_le_used hentry'
  rw [← hl.size_slots] at hend
  rw [← hc.laid.size_slots] at hend'
  congr 1
  apply Array.ext
  · rw [Array.size_extract, Array.size_extract]
    omega
  · intro i hi hi'
    rw [Array.size_extract] at hi hi'
    have howns : s.heap.Owns r (entry.offset + i) :=
      ⟨entry, hentry, by omega, by omega⟩
    have hslot := hc.slot_kept hl hr howns
    rw [Array.getElem?_eq_getElem (by omega),
      Array.getElem?_eq_getElem (by omega)] at hslot
    rw [Array.getElem_extract, Array.getElem_extract]
    exact Option.some.inj hslot

/-- An object that is not written reads as before. -/
theorem Change.load_kept (hc : Change p K W s t) {r : UInt16}
    (hl : s.heap.Laid) (hr : ¬ W r) (hcontains : s.heap.Contains r)
    (i : Nat) : t.heap.load r i = s.heap.load r i := by
  obtain ⟨entry, hentry⟩ := Heap.contains_iff.1 hcontains
  have hentry' := hc.kept _ _ hentry
  by_cases hi : i < entry.len
  · have howns : s.heap.Owns r (entry.offset + i) :=
      ⟨entry, hentry, by omega, by omega⟩
    have hend := hl.end_le_used hentry
    rw [← hl.size_slots] at hend
    have hv := Array.getElem?_eq_getElem
      (Nat.lt_of_lt_of_le (Nat.add_lt_add_left hi _) hend)
    rw [hl.load_of_entry hentry hi hv, hc.laid.load_of_entry hentry' hi
      ((hc.slot_kept hl hr howns).trans hv)]
  · unfold Heap.load
    rw [Heap.header_of_entry hentry, Heap.header_of_entry hentry']
    simp only [bind, Except.bind, if_neg hi]

end Store

end SlotVm
