import SlotVm.Proofs.Operands
import SlotVm.Proofs.Store.Native
import SlotVm.Proofs.Texts

/-!
# Copies of texts

A text that goes through the heap comes back folded: a character that does
not fit into 16 bits is replaced, and all others stay (`foldText_eq_self_iff`).
How often it goes through makes no difference after the first time.

There are four groups of lemmas.

* Folding leaves exactly the characters that fit.
* An allocation succeeds if there is room, and what it takes is known
  (`Heap.Spends`).
* `Copying` is a store in the middle of a copy, compared with the store in
  which the copy has begun.  There is one lemma for each operation of a copy,
  and none of them can fail.
* Rows of copies, by induction, and the printed text.
-/

namespace SlotVm

open SlotVm.Action

/-! ## Characters that fit -/

namespace Strings

/-- The character fits into a slot of an array. -/
def Fits (c : Char) : Prop := c.toNat < 65536

instance (c : Char) : Decidable (Fits c) :=
  inferInstanceAs (Decidable (_ < _))

theorem fold_of_fits {c : Char} (h : Fits c) : fold c = c := by
  have hunit : unit c = c.toNat := Nat.mod_eq_of_lt h
  have hvalid : (unit c).isValidChar := by
    rw [hunit]
    exact c.valid
  unfold fold
  rw [ofUnit, dif_pos hvalid]
  apply Char.toNat_inj.1
  exact hunit

/-- The replacement fits. -/
theorem fits_fold (c : Char) : Fits (fold c) := by
  unfold fold
  by_cases hvalid : (unit c).isValidChar
  · rw [ofUnit, dif_pos hvalid]
    exact unit_lt c
  · rw [ofUnit, dif_neg hvalid]
    decide

theorem fold_eq_self_iff {c : Char} : fold c = c ↔ Fits c := by
  constructor
  · intro h
    rw [← h]
    exact fits_fold c
  · exact fold_of_fits

theorem foldText_eq_self_iff {text : String} :
    foldText text = text ↔ ∀ c ∈ text.toList, Fits c := by
  have hlist : foldText text = text ↔ text.toList.map fold = text.toList := by
    unfold foldText
    rw [← String.toList_inj, String.toList_ofList]
  have hmap : text.toList.map fold = text.toList.map id ↔
      ∀ c ∈ text.toList, fold c = id c := List.map_inj_left
  rw [List.map_id] at hmap
  rw [hlist, hmap]
  simp only [id, fold_eq_self_iff]

/-- A character that does not fit is replaced by the one with its low 16
bits, or by the replacement character if they are half of a pair. -/
theorem toList_foldText (text : String) :
    (foldText text).toList = text.toList.map fun c =>
      if Fits c then c else ofUnit (c.toNat % 65536) := by
  unfold foldText
  rw [String.toList_ofList]
  apply List.map_congr_left
  intro c _
  split
  · exact fold_of_fits ‹_›
  · rfl

theorem length_foldText (text : String) :
    (foldText text).length = text.length := by
  simp [foldText, ← String.length_toList]

end Strings

/-! ## What an allocation takes -/

namespace Heap

open Strings

variable {h t u : Heap} {r : UInt16} {w : Value} {text : String}

/-- The heap `t` has all objects of `h` and that many more, which take that
many slots. -/
structure Spends (h t : Heap) (objects slots : Nat) : Prop where
  laid : t.Laid
  keeps : h.view.Keeps t.view
  count_eq : t.objects.size = h.objects.size + objects
  free_eq : t.free + slots = h.free

theorem Spends.refl (hl : h.Laid) : h.Spends h 0 0 :=
  ⟨hl, fun _ _ hget => hget, rfl, rfl⟩

theorem Spends.trans {a b m n : Nat} (h₁ : h.Spends t a m)
    (h₂ : t.Spends u b n) : h.Spends u (a + b) (m + n) where
  laid := h₂.laid
  keeps := fun r object hget => h₂.keeps r object (h₁.keeps r object hget)
  count_eq := by
    rw [h₂.count_eq, h₁.count_eq, Nat.add_assoc]
  free_eq := by
    have hfirst := h₁.free_eq
    have hsecond := h₂.free_eq
    omega

/-- There is room for an object with that many slots. -/
def Room (h : Heap) (slots : Nat) : Prop :=
  h.objects.size < maxObjects ∧ slots ≤ h.free

instance (h : Heap) (slots : Nat) : Decidable (h.Room slots) :=
  inferInstanceAs (Decidable (_ ∧ _))

theorem Laid.extend_spends (hl : h.Laid) (kind : ObjectKind)
    (contents : Array Value) (hroom : h.Room contents.size) :
    h.Spends (h.extend kind contents) 1 contents.size where
  laid := hl.extend kind hroom.1 hroom.2
  keeps := by
    rw [hl.view_extend kind hroom.2]
    exact ObjectList.keeps_append _ _
  count_eq := by simp
  free_eq := by
    have hcapacity := hl.capacity_extend kind hroom.2
    have hused := h.used_extend kind contents
    have hfree := hroom.2
    unfold capacity at hcapacity
    unfold used Arena.used at hused
    unfold free Arena.remaining at hfree ⊢
    omega

/-- Where there is room, an allocation gives a new object. -/
theorem Laid.allocate_spends {a : Action Heap UInt16} (hl : h.Laid)
    {kind : ObjectKind} {contents : Array Value}
    (ha : a h = allocateWith kind contents h)
    (hroom : h.Room contents.size) :
    Ends a h
      (fun r t => h.Spends t 1 contents.size ∧ h.view.get? r = none ∧
        t.view.get? r = some (kind, contents.toList))
      (fun _ _ => False) := by
  have hends := allocateWith_ends h kind contents
  apply Ends.of_eq ha
  apply (hl.allocateWith_view kind contents).with_end.mono
  · intro r t hend
    obtain ⟨hok, -, -, hnone, hget⟩ := hend
    obtain ⟨-, -, -, rfl⟩ := hends.of_ok hok
    exact ⟨hl.extend_spends kind contents hroom, hnone, hget⟩
  · intro e t hend
    obtain ⟨-, -, hnot⟩ := hends.of_error hend.1
    exact hnot hroom

/-- A text takes a slot for each character. -/
theorem Laid.allocateText_spends (hl : h.Laid) {text : String}
    (hroom : h.Room text.length) :
    Ends (Strings.allocate text) h
      (fun r t => h.Spends t 1 text.length ∧ h.view.get? r = none ∧
        t.view.get? r = some (.array .char, slotsOf text))
      (fun _ _ => False) := by
  have hsize : (slotsOf text).toArray.size = text.length := by
    simp [slotsOf, ← String.length_toList]
  rw [← hsize] at hroom ⊢
  exact hl.allocate_spends (hl.allocateText_eq text) hroom

theorem Spends.get?_none {a n : Nat} (hs : h.Spends t a n)
    (hr : t.view.get? r = none) : h.view.get? r = none := by
  cases hget : h.view.get? r with
  | none => rfl
  | some object =>
    rw [hs.keeps r object hget] at hr
    cases hr

end Heap

/-! ## A store in the middle of a copy -/

namespace TextCopies

open Strings

variable {δ α : Type}

/-- What a copy has done since it began in the store `s`: it has put operands
on the stack and has taken objects and slots of the heap. -/
structure Copying (s u : Store δ) (operands : List Value)
    (objects slots : Nat) : Prop where
  heap : s.heap.Spends u.heap objects slots
  above : s.stack.Above u.stack
  operands_eq : u.stack.operands = s.stack.operands ++ operands
  console_eq : u.console = s.console

variable {s u : Store δ} {operands : List Value} {objects slots : Nat}
variable {v w : Value} {r : UInt16} {text : String}

namespace Copying

theorem refl (hl : s.heap.Laid) (hs : s.stack.Bounded) :
    Copying s s [] 0 0 :=
  ⟨.refl hl, hs.above_self, (List.append_nil _).symm, rfl⟩

theorem push_ends (h : Copying s u operands objects slots)
    (hroom : s.stack.size + operands.length < s.stack.limit) (v : Value) :
    Ends (Store.push v) u
      (fun _ t => Copying s t (operands ++ [v]) objects slots ∧
        t.heap = u.heap)
      (fun _ _ => False) := by
  have hsize : u.stack.size < u.stack.limit := by
    have hold := s.stack.size_eq
    rw [u.stack.size_eq, h.above.below_eq, h.operands_eq, h.above.limit_eq,
      List.length_append]
    omega
  obtain ⟨t, hpush, habove, hoperands⟩ :=
    Stack.push_of_room h.above.bounded hsize v
  unfold Ends Store.push
  rw [Store.onStack_of_ok hpush]
  refine ⟨⟨h.heap, h.above.trans habove, ?_, h.console_eq⟩, rfl⟩
  rw [hoperands, h.operands_eq, List.append_assoc]

theorem pop_ends (h : Copying s u (operands ++ [v]) objects slots) :
    Ends Store.pop u
      (fun x t => x = v ∧ Copying s t operands objects slots ∧
        t.heap = u.heap)
      (fun _ _ => False) := by
  have hlast : u.stack.operands = (s.stack.operands ++ operands) ++ [v] := by
    rw [h.operands_eq, List.append_assoc]
  obtain ⟨t, hpop, habove, hoperands⟩ :=
    Stack.pop_of_operands h.above.bounded hlast
  unfold Ends Store.pop
  rw [Store.onStack_of_ok hpop]
  exact ⟨rfl, ⟨h.heap, h.above.trans habove, hoperands, h.console_eq⟩, rfl⟩

theorem pop2_ends (h : Copying s u (operands ++ [v, w]) objects slots) :
    Ends (Store.onStack (Stack.popN 2)) u
      (fun _ t => Copying s t operands objects slots ∧ t.heap = u.heap)
      (fun _ _ => False) := by
  unfold Store.onStack
  apply Ends.onPart
  apply (Stack.popN_ends h.above.bounded 2).mono
  · intro args t hend
    obtain ⟨habove, hcount, hoperands⟩ := hend
    rw [h.operands_eq, ← List.append_assoc] at hoperands
    have hrest := List.append_inj' hoperands (by simp [hcount])
    exact ⟨⟨h.heap, h.above.trans habove, hrest.1.symm, h.console_eq⟩, rfl⟩
  · intro e t hend
    obtain ⟨-, hshort, -⟩ := hend
    rw [h.operands_eq] at hshort
    simp only [List.length_append, List.length_cons] at hshort
    omega

/-- The operand below as many others. -/
theorem peek_eq {above : List Value}
    (h : Copying s u (operands ++ v :: above) objects slots) :
    u.stack.peek above.length = .ok v := by
  rw [Stack.peek_eq, h.operands_eq]
  simp [List.reverse_append]

/-- The state of the log does not matter. -/
theorem logged (h : Copying s u operands objects slots) (level : Level)
    (text : String) :
    Copying s (Bridge.logged u level text) operands objects slots :=
  ⟨h.heap, h.above, h.operands_eq, h.console_eq⟩

/-- An action on the heap that spends a part of it. -/
theorem onHeap_ends (h : Copying s u operands objects slots)
    {a : Action Heap UInt16} {count n : Nat}
    {P : UInt16 → Heap → Prop}
    (ha : Ends a u.heap (fun r t => u.heap.Spends t count n ∧ P r t)
      (fun _ _ => False)) :
    Ends (Store.onHeap a) u
      (fun r t => Copying s t operands (objects + count) (slots + n) ∧
        u.heap.view.Keeps t.heap.view ∧ P r t.heap)
      (fun _ _ => False) := by
  unfold Store.onHeap
  apply Ends.onPart
  apply ha.imp
  intro r t hend
  obtain ⟨hspends, hP⟩ := hend
  exact ⟨⟨h.heap.trans hspends, h.above, h.operands_eq, h.console_eq⟩,
    hspends.keeps, hP⟩

/-- A store to a block that the copy has made. -/
theorem storeSlot_ends (h : Copying s u operands objects slots)
    (hnew : s.heap.view.get? r = none)
    (hr : u.heap.view.get? r = some (.chunk, [w])) (v : Value) :
    Ends (Store.storeSlot r 0 v) u
      (fun _ t => Copying s t operands objects slots ∧
        t.heap.view.get? r = some (.chunk, [v]) ∧
        ∀ r', r' ≠ r → t.heap.view.get? r' = u.heap.view.get? r')
      (fun _ _ => False) := by
  unfold Store.storeSlot Store.onHeap
  apply Ends.onPart
  apply (h.heap.laid.storeBlock_ends hr v).imp
  intro _ t hend
  obtain ⟨hlaid, hview, hobjects, hfree⟩ := hend
  have hself : t.view.get? r = some (.chunk, [v]) := by
    rw [hview]
    exact ObjectList.get?_set_self hr
  have hother : ∀ r', r' ≠ r → t.view.get? r' = u.heap.view.get? r' := by
    intro r' hne
    rw [hview]
    exact ObjectList.get?_set_ne hne
  have hkeeps : s.heap.view.Keeps t.view := by
    intro r' object hget
    have hne : r' ≠ r := by
      intro heq
      rw [heq, hnew] at hget
      cases hget
    rw [hother r' hne]
    exact h.heap.keeps r' object hget
  have hcount := h.heap.count_eq
  have hleft := h.heap.free_eq
  rw [← hobjects] at hcount
  rw [← hfree] at hleft
  exact ⟨⟨⟨hlaid, hkeeps, hcount, hleft⟩, h.above, h.operands_eq,
    h.console_eq⟩, hself, hother⟩

end Copying

/-! ## Strings and buffers -/

/-- The value is a pooled string, or an array of the heap, with the text. -/
inductive Reads (image : Image) (h : Heap) : Value → String → Prop
  | pooled {i : UInt16} {text : String} (hi : image.string i.toNat = .ok text) :
      Reads image h (.const i) text
  | array {r : UInt16} {text : String} (hr : h.view.HoldsText r text) :
      Reads image h (.ref r) text

variable {image : Image} {h t : Heap} {b : Bridge δ}

theorem Reads.mono (hv : Reads image h v text) (hkeeps : h.view.Keeps t.view) :
    Reads image t v text := by
  cases hv with
  | pooled hi => exact .pooled hi
  | array hr => exact .array (hr.mono (hkeeps _))

theorem Reads.read_eq (hl : h.Laid) (hv : Reads image h v text) :
    Strings.read h image v = .ok text := by
  cases hv with
  | pooled hi => exact hi
  | array hr => exact hl.read_text hr image

/-- A buffer that the copy has made, with an array for the text or, while it
is empty, none. -/
structure OwnBuffer (s u : Store δ) (r : UInt16) (held : Value) : Prop where
  new : s.heap.view.get? r = none
  block : u.heap.view.get? r = some (.chunk, [held])

theorem OwnBuffer.of_heap_eq {u' : Store δ} (h : OwnBuffer s u r w)
    (hheap : u'.heap = u.heap) : OwnBuffer s u' r w :=
  ⟨h.new, by rw [hheap]; exact h.block⟩

/-- Reading an operand leaves the store. -/
theorem operandText_eq {op : String} {argument : Stdio.Argument}
    {depth : Nat} (hpeek : u.stack.peek depth = .ok v)
    (htext : argument.text op u.heap image v = .ok text) :
    Stdio.operandText op image argument depth u = .ok text u := by
  unfold Stdio.operandText Action.read
  apply lift_of_ok
  exact (bind_of_ok hpeek).trans htext

theorem operandHandle_eq {op : String} {depth : Nat}
    (hpeek : u.stack.peek depth = .ok (.ref r)) :
    Stdio.operandHandle op depth u = .ok r u := by
  unfold Stdio.operandHandle
  have hread : Store.peek depth u = .ok (.ref r) u := lift_of_ok hpeek
  rw [seq_of_ok hread]
  rfl

namespace Copying

/-- A new buffer. -/
theorem construct_ends (h : Copying s u operands objects slots)
    (hstack : s.stack.size + operands.length < s.stack.limit)
    (hroom : u.heap.Room 1) :
    Ends (Bridge.construct Native.stringBuffer) u
      (fun _ t => ∃ r,
        Copying s t (operands ++ [.ref r]) (objects + 1) (slots + 1) ∧
        OwnBuffer s t r .null)
      (fun _ _ => False) := by
  unfold Bridge.construct
  rw [if_neg (by decide)]
  have hl := h.heap.laid
  have hblock := hl.allocate_spends (hl.allocateKind_eq .chunk false 1) hroom
  refine (h.onHeap_ends hblock).bind ?_
  intro r t hend
  obtain ⟨ht, -, hnone, hget⟩ := hend
  refine (ht.push_ends hstack (.ref r)).imp ?_
  intro _ t' hend
  obtain ⟨ht', hheap⟩ := hend
  refine ⟨r, ht', h.heap.get?_none hnone, ?_⟩
  rw [hheap]
  exact hget

/-- A buffer gets a new array with a text. -/
theorem setText_ends (h : Copying s u operands objects slots)
    (hbuffer : OwnBuffer s u r w) (hroom : u.heap.Room text.length) :
    Ends (Stdio.setText r text) u
      (fun _ t => ∃ chars,
        Copying s t operands (objects + 1) (slots + text.length) ∧
        OwnBuffer s t r (.ref chars) ∧
        t.heap.view.HoldsText chars (foldText text))
      (fun _ _ => False) := by
  unfold Stdio.setText
  refine (h.onHeap_ends (h.heap.laid.allocateText_spends hroom)).bind ?_
  intro chars t hend
  obtain ⟨ht, hkeeps, hnone, hchars⟩ := hend
  have hblock := hkeeps r _ hbuffer.block
  refine (ht.storeSlot_ends hbuffer.new hblock (.ref chars)).imp ?_
  intro _ t' hend
  obtain ⟨ht', hself, hother⟩ := hend
  have hne : chars ≠ r := by
    intro heq
    rw [heq, hbuffer.block] at hnone
    cases hnone
  refine ⟨chars, ht', ⟨hbuffer.new, hself⟩, text, ?_, rfl⟩
  rw [hother chars hne]
  exact hchars

/-- An empty buffer is emptied by its constructor. -/
theorem clear_ends (h : Copying s u (operands ++ [.ref r]) objects slots)
    (hbuffer : OwnBuffer s u r w) :
    Ends Stdio.construct u
      (fun _ t => Copying s t operands objects slots ∧ OwnBuffer s t r .null)
      (fun _ _ => False) := by
  unfold Stdio.construct Store.popHandle
  have hpop : Ends (do
        let v ← Store.pop
        Action.lift (v.asHandle "StringBuffer.<init>")) u
      (fun buffer t => buffer = r ∧ Copying s t operands objects slots ∧
        t.heap = u.heap)
      (fun _ _ => False) := by
    refine h.pop_ends.bind ?_
    intro v t hend
    obtain ⟨rfl, ht⟩ := hend
    exact ⟨rfl, ht⟩
  refine hpop.bind ?_
  intro buffer t hend
  obtain ⟨rfl, ht, hheap⟩ := hend
  have hblock := hbuffer.block
  rw [← hheap] at hblock
  refine (ht.storeSlot_ends hbuffer.new hblock .null).imp ?_
  intro _ t' hend
  exact ⟨hend.1, hbuffer.new, hend.2.1⟩

/-- A buffer is filled with a text by its constructor. -/
theorem fill_ends
    (h : Copying s u (operands ++ [.ref r, v]) objects slots)
    (hbuffer : OwnBuffer s u r w) (hv : Reads image u.heap v text)
    (hroom : u.heap.Room text.length) :
    Ends (Stdio.constructFrom image) u
      (fun _ t => ∃ chars,
        Copying s t operands (objects + 1) (slots + text.length) ∧
        OwnBuffer s t r (.ref chars) ∧
        t.heap.view.HoldsText chars (foldText text))
      (fun _ _ => False) := by
  have hlast : Copying s u ((operands ++ [.ref r]) ++ v :: []) objects slots :=
    (List.append_assoc operands [.ref r] [v]).symm ▸ h
  unfold Stdio.constructFrom
  have hread := hv.read_eq h.heap.laid
  refine Ends.bind_ok (operandText_eq hlast.peek_eq hread) ?_
  refine Ends.bind_ok (operandHandle_eq h.peek_eq) ?_
  refine (h.setText_ends hbuffer hroom).bind ?_
  intro _ t hend
  obtain ⟨chars, ht, hown, hchars⟩ := hend
  refine ht.pop2_ends.bind ?_
  intro _ t' hend
  obtain ⟨ht', hheap⟩ := hend
  refine Ends.pure ⟨chars, ht', hown.of_heap_eq hheap, ?_⟩
  rw [hheap]
  exact hchars

/-- An append to an empty buffer leaves the buffer on the stack. -/
theorem append_ends
    (h : Copying s u (operands ++ [.ref r, v]) objects slots)
    (hbuffer : OwnBuffer s u r .null) (hv : Reads image u.heap v text)
    (hroom : u.heap.Room text.length) :
    Ends (Stdio.append image .string) u
      (fun _ t => ∃ chars,
        Copying s t (operands ++ [.ref r]) (objects + 1)
          (slots + text.length) ∧
        OwnBuffer s t r (.ref chars) ∧
        t.heap.view.HoldsText chars (foldText text))
      (fun _ _ => False) := by
  have hlast : Copying s u ((operands ++ [.ref r]) ++ v :: []) objects slots :=
    (List.append_assoc operands [.ref r] [v]).symm ▸ h
  have hload : u.heap.load r 0 = .ok .null :=
    h.heap.laid.shows_view.load_eq r _ _ 0 _ hbuffer.block rfl
  have hempty : Stdio.bufferText image r u = .ok "" u := by
    unfold Stdio.bufferText Action.read
    exact lift_of_ok (bind_of_ok hload)
  unfold Stdio.append
  have hread := hv.read_eq h.heap.laid
  refine Ends.bind_ok (operandText_eq hlast.peek_eq hread) ?_
  refine Ends.bind_ok (operandHandle_eq h.peek_eq) ?_
  refine Ends.bind_ok hempty ?_
  rw [String.empty_append]
  refine (hlast.setText_ends hbuffer hroom).bind ?_
  intro _ t hend
  obtain ⟨chars, ht, hown, hchars⟩ := hend
  refine ht.pop_ends.bind ?_
  intro _ t' hend
  obtain ⟨-, ht', hheap⟩ := hend
  refine Ends.pure ⟨chars, ht', hown.of_heap_eq hheap, ?_⟩
  rw [hheap]
  exact hchars

/-- The array of a buffer takes its place. -/
theorem toText_ends {chars : UInt16}
    (h : Copying s u (operands ++ [.ref r]) objects slots)
    (hbuffer : OwnBuffer s u r (.ref chars))
    (hstack : s.stack.size + operands.length < s.stack.limit) :
    Ends Stdio.toText u
      (fun _ t => Copying s t (operands ++ [.ref chars]) objects slots ∧
        t.heap = u.heap)
      (fun _ _ => False) := by
  have hload : Store.loadSlot r 0 u = .ok (.ref chars) u :=
    lift_of_ok (h.heap.laid.shows_view.load_eq r _ _ 0 _ hbuffer.block rfl)
  unfold Stdio.toText
  refine Ends.bind_ok (operandHandle_eq h.peek_eq) ?_
  refine Ends.bind_ok hload ?_
  refine h.pop_ends.bind ?_
  intro _ t hend
  obtain ⟨-, ht, hheap⟩ := hend
  refine (ht.push_ends hstack (.ref chars)).imp ?_
  intro _ t' hend
  exact ⟨hend.1, hend.2.trans hheap⟩

end Copying

/-! ## Rows of copies -/

/-- How a string gets into a new buffer. -/
inductive Route where
  | constructor
  | append

/-- Puts the top value on the stack again. -/
def dup : Action (Store δ) Unit := do
  let v ← Store.peek 0
  Store.push v

/-- Fills the new buffer on top. -/
def fill (b : Bridge δ) (image : Image) (v : Value) :
    Route → Action (Store δ) Unit
  | .constructor => do
      dup
      Store.push v
      b.invoke image ⟨Native.stringBuffer, 1⟩
  | .append => do
      dup
      b.invoke image ⟨Native.stringBuffer, 0⟩
      Store.push v
      b.invoke image ⟨Native.stringBuffer, 2⟩

/-- Passes a string through a new buffer and takes the string that comes
out. -/
def copy (b : Bridge δ) (image : Image) (route : Route) (v : Value) :
    Action (Store δ) Value := do
  Bridge.construct Native.stringBuffer
  fill b image v route
  b.invoke image ⟨Native.stringBuffer, 5⟩
  Store.pop

/-- Passes a string through one buffer after the other. -/
def copies (b : Bridge δ) (image : Image) :
    List Route → Value → Action (Store δ) Value
  | [], v => pure v
  | route :: rest, v => do
      let v' ← copy b image route v
      copies b image rest v'

/-- Prints a string with a method of the output stream. -/
def printed (b : Bridge δ) (image : Image) (id : UInt16) (v : Value) :
    Action (Store δ) Unit := do
  Store.push .zero
  Store.push v
  b.invoke image ⟨Native.printStream, id⟩

/-- The text behind a row of copies. -/
def copied : List Route → String → String
  | [], text => text
  | _ :: _, text => foldText text

/-- There is room for that many copies of a text of that length. -/
structure Ready (s : Store δ) (count length : Nat) : Prop where
  laid : s.heap.Laid
  bounded : s.stack.Bounded
  operands : s.stack.size + 3 ≤ s.stack.limit
  handles : s.heap.objects.size + 2 * count ≤ Heap.maxObjects
  slots : count * (length + 1) ≤ s.heap.free

theorem Copying.room (h : Copying s u operands objects slots) {n : Nat}
    (hcount : s.heap.objects.size + objects < Heap.maxObjects)
    (hfree : slots + n ≤ s.heap.free) : u.heap.Room n := by
  have hobjects := h.heap.count_eq
  have hslots := h.heap.free_eq
  constructor <;> omega

theorem Copying.reads (h : Copying s u operands objects slots)
    (hv : Reads image s.heap v text) : Reads image u.heap v text :=
  hv.mono h.heap.keeps

/-- Room for the copies behind the first one. -/
theorem Copying.ready {count length : Nat}
    (h : Copying s u [] 2 (length + 1)) (hs : Ready s (count + 1) length) :
    Ready u count length where
  laid := h.heap.laid
  bounded := h.above.bounded
  operands := by
    have hold := s.stack.size_eq
    have hoperands := hs.operands
    rw [u.stack.size_eq, h.above.below_eq, h.operands_eq, h.above.limit_eq,
      List.append_nil, ← hold]
    exact hoperands
  handles := by
    have hhandles := hs.handles
    rw [h.heap.count_eq]
    omega
  slots := by
    have hslots := hs.slots
    have hfree := h.heap.free_eq
    rw [Nat.succ_mul] at hslots
    omega

theorem Copying.dup_ends (h : Copying s u (operands ++ [v]) objects slots)
    (hroom : s.stack.size + operands.length + 1 < s.stack.limit) :
    Ends dup u
      (fun _ t => Copying s t (operands ++ [v, v]) objects slots ∧
        t.heap = u.heap)
      (fun _ _ => False) := by
  have hread : Store.peek 0 u = .ok v u := lift_of_ok h.peek_eq
  have hpush := h.push_ends (by simp; omega) v
  rw [List.append_assoc] at hpush
  exact Ends.bind_ok hread hpush

/-- A method of a string buffer. -/
theorem stringBuffer_ends
    (hb : b.familyOf? Native.stringBuffer = some Stdio.family) {id : UInt16}
    {post : Unit → Store δ → Prop} {fail : Fault → Store δ → Prop}
    (h : ∀ text, Ends (Stdio.stringBuffer image ⟨Native.stringBuffer, id⟩)
      (Bridge.logged u .debug text) post fail) :
    Ends (b.invoke image ⟨Native.stringBuffer, id⟩) u post fail := by
  have hfamily : b.familyOf?
      (⟨Native.stringBuffer, id⟩ : MethodRef).classId = some Stdio.family := hb
  obtain ⟨text, hinvoke⟩ := Bridge.invoke_of_some hfamily image u
  exact Ends.of_eq hinvoke (h text)

section Copy

variable (hb : b.familyOf? Native.stringBuffer = some Stdio.family)

include hb

/-- Both routes leave a buffer with an array that holds the folded text. -/
theorem Copying.fill_route_ends (route : Route)
    (h : Copying s u [.ref r] objects slots)
    (hbuffer : OwnBuffer s u r .null) (hv : Reads image s.heap v text)
    (hstack : s.stack.size + 3 ≤ s.stack.limit)
    (hcount : s.heap.objects.size + objects < Heap.maxObjects)
    (hfree : slots + text.length ≤ s.heap.free) :
    Ends (fill b image v route) u
      (fun _ t => ∃ chars,
        Copying s t [.ref r] (objects + 1) (slots + text.length) ∧
        OwnBuffer s t r (.ref chars) ∧
        t.heap.view.HoldsText chars (foldText text))
      (fun _ _ => False) := by
  have hone : Copying s u ([] ++ [.ref r]) objects slots := h
  cases route with
  | constructor =>
    refine (hone.dup_ends (by simp; omega)).bind ?_
    intro _ t hend
    obtain ⟨ht, hheap⟩ := hend
    refine (ht.push_ends (by simp; omega) v).bind ?_
    intro _ t' hend
    obtain ⟨ht', hheap'⟩ := hend
    have hown := hbuffer.of_heap_eq (hheap'.trans hheap)
    refine stringBuffer_ends hb fun message => ?_
    have hlogged : Copying s (Bridge.logged t' .debug message)
        ([.ref r] ++ [.ref r, v]) objects slots := ht'.logged .debug message
    exact hlogged.fill_ends (hown.of_heap_eq rfl) (hlogged.reads hv)
      (hlogged.room hcount hfree)
  | append =>
    refine (hone.dup_ends (by simp; omega)).bind ?_
    intro _ t hend
    obtain ⟨ht, hheap⟩ := hend
    have hclear : Ends (b.invoke image ⟨Native.stringBuffer, 0⟩) t
        (fun _ t' => Copying s t' [.ref r] objects slots ∧
          OwnBuffer s t' r .null)
        (fun _ _ => False) := by
      refine stringBuffer_ends hb fun message => ?_
      have hlogged : Copying s (Bridge.logged t .debug message)
          ([.ref r] ++ [.ref r]) objects slots := ht.logged .debug message
      exact hlogged.clear_ends (hbuffer.of_heap_eq hheap)
    refine hclear.bind ?_
    intro _ t' hend
    obtain ⟨ht', hown⟩ := hend
    refine (ht'.push_ends (by simp; omega) v).bind ?_
    intro _ t'' hend
    obtain ⟨ht'', hheap''⟩ := hend
    refine stringBuffer_ends hb fun message => ?_
    have hlogged : Copying s (Bridge.logged t'' .debug message)
        ([] ++ [.ref r, v]) objects slots := ht''.logged .debug message
    exact hlogged.append_ends (hown.of_heap_eq hheap'') (hlogged.reads hv)
      (hlogged.room hcount hfree)

/-- One copy takes a block, an array and nothing else. -/
theorem copy_ends (route : Route) {count : Nat}
    (hs : Ready s (count + 1) text.length)
    (hv : Reads image s.heap v text) :
    Ends (copy b image route v) s
      (fun v' t => Copying s t [] 2 (text.length + 1) ∧
        Reads image t.heap v' (foldText text))
      (fun _ _ => False) := by
  have hhandles := hs.handles
  have hslots := hs.slots
  have hoperands := hs.operands
  rw [Nat.succ_mul] at hslots
  have hstart : Copying s s [] 0 0 := .refl hs.laid hs.bounded
  unfold copy
  refine (hstart.construct_ends (by simp; omega)
    (hstart.room (by omega) (by omega))).bind ?_
  intro _ u hend
  obtain ⟨r, hu, hown⟩ := hend
  refine (hu.fill_route_ends hb route hown hv hoperands (by omega)
    (by omega)).bind ?_
  intro _ t hend
  obtain ⟨chars, ht, hown', hchars⟩ := hend
  have htext : Ends (b.invoke image ⟨Native.stringBuffer, 5⟩) t
      (fun _ t' => Copying s t' ([] ++ [.ref chars]) 2 (text.length + 1) ∧
        t'.heap = t.heap)
      (fun _ _ => False) := by
    refine stringBuffer_ends hb fun message => ?_
    have hlogged : Copying s (Bridge.logged t .debug message)
        ([] ++ [.ref r]) 2 (text.length + 1) := by
      have hsum : text.length + 1 = 0 + 1 + text.length := by omega
      rw [hsum]
      exact ht.logged .debug message
    exact hlogged.toText_ends (hown'.of_heap_eq rfl) (by simp; omega)
  refine htext.bind ?_
  intro _ t' hend
  obtain ⟨ht', hheap⟩ := hend
  refine ht'.pop_ends.imp ?_
  intro v' t'' hend
  obtain ⟨rfl, ht'', hheap'⟩ := hend
  refine ⟨ht'', .array ?_⟩
  rw [hheap', hheap]
  exact hchars

/-- A row of copies folds the text once. -/
theorem copies_end (routes : List Route)
    (hs : Ready s routes.length text.length)
    (hv : Reads image s.heap v text) :
    Ends (copies b image routes v) s
      (fun v' t => Ready t 0 text.length ∧ t.console = s.console ∧
        Reads image t.heap v' (copied routes text))
      (fun _ _ => False) := by
  induction routes generalizing s v text with
  | nil => exact Ends.pure ⟨hs, rfl, hv⟩
  | cons route rest ih =>
    refine (copy_ends hb route hs hv).bind ?_
    intro v' t hend
    obtain ⟨ht, hv'⟩ := hend
    have hready : Ready t rest.length (foldText text).length := by
      rw [length_foldText]
      exact ht.ready hs
    refine (ih hready hv').imp ?_
    intro v'' t' hend
    obtain ⟨ht', hconsole, hv''⟩ := hend
    rw [length_foldText] at ht'
    refine ⟨ht', hconsole.trans ht.console_eq, ?_⟩
    cases rest with
    | nil => exact hv''
    | cons route' rest =>
      rw [copied, foldText_foldText] at hv''
      exact hv''

end Copy

/-- Printing a string. -/
theorem printed_ends
    (hb : b.familyOf? Native.printStream = some Stdio.family) {id : UInt16}
    {ending : String}
    (hid : Stdio.printMethod? id = some (some .string, ending))
    {length : Nat} (hs : Ready s 0 length) (hv : Reads image s.heap v text) :
    Ends (printed b image id v) s
      (fun _ t => t.console = s.console.write (text ++ ending))
      (fun _ _ => False) := by
  have hoperands := hs.operands
  have hstart : Copying s s [] 0 0 := .refl hs.laid hs.bounded
  unfold printed
  refine (hstart.push_ends (by simp; omega) .zero).bind ?_
  intro _ u hend
  obtain ⟨hu, -⟩ := hend
  refine (hu.push_ends (by simp; omega) v).bind ?_
  intro _ t hend
  obtain ⟨ht, -⟩ := hend
  have hfamily : b.familyOf?
      (⟨Native.printStream, id⟩ : MethodRef).classId = some Stdio.family := hb
  obtain ⟨message, hinvoke⟩ := Bridge.invoke_of_some hfamily image t
  apply Ends.of_eq hinvoke
  show Ends (Stdio.printStream image ⟨Native.printStream, id⟩) _ _ _
  have hlogged : Copying s (Bridge.logged t .debug message)
      ([.zero] ++ [v]) 0 0 := ht.logged .debug message
  unfold Stdio.printStream
  simp only [hid]
  have hread := (hlogged.reads hv).read_eq hlogged.heap.laid
  refine Ends.bind_ok (operandText_eq hlogged.peek_eq hread) ?_
  refine hlogged.pop_ends.bind ?_
  intro _ t' hend
  obtain ⟨-, ht', -⟩ := hend
  have hzero : Copying s t' ([] ++ [.zero]) 0 0 := ht'
  refine hzero.pop_ends.bind ?_
  intro _ t'' hend
  obtain ⟨-, ht'', -⟩ := hend
  apply Ends.modify
  rw [ht''.console_eq]

/-! ## Both together -/

/-- The outputs with and without copies are the same if the text fits, and
only then. -/
theorem write_copied_iff {routes : List Route} {c : Console}
    {ending : String} :
    c.write (copied routes text ++ ending) = c.write (text ++ ending) ↔
      routes = [] ∨ ∀ c ∈ text.toList, Fits c := by
  have hwrite : c.write (copied routes text ++ ending) =
      c.write (text ++ ending) ↔ copied routes text = text := by
    simp only [Console.write, Console.mk.injEq, true_and, ← String.toList_inj,
      String.toList_append, List.append_cancel_left_eq,
      List.append_cancel_right_eq]
  rw [hwrite]
  cases routes with
  | nil => simp [copied]
  | cons route rest =>
    rw [copied, foldText_eq_self_iff]
    simp

/-- **A text comes back from the heap with every character that does not fit
replaced.**  It is stored wherever there is room, and read back folded.  A
pooled string is printed as it is, and folded after any row of copies. -/
theorem texts_folded {config : Config} {log log' : Log}
    (hb : Bridge.forConfig config log = .ok b log')
    (hstdio : config.families.stdio = true) (image : Image) (text : String) :
    (∀ h : Heap, h.Laid → h.Room text.length →
      ∃ r t, Strings.allocate text h = .ok r t ∧
        t.view.get? r = some (.array .char, slotsOf text) ∧
        Strings.read t image (.ref r) = .ok (foldText text)) ∧
    (foldText text).toList = text.toList.map (fun c =>
      if Fits c then c else ofUnit (c.toNat % 65536)) ∧
    (foldText text = text ↔ ∀ c ∈ text.toList, Fits c) ∧
    ∀ (s : Store δ) (routes : List Route) (i id : UInt16) (ending : String),
      Ready s routes.length text.length →
      image.string i.toNat = .ok text →
      Stdio.printMethod? id = some (some .string, ending) →
      ∃ t t', printed b image id (.const i) s = .ok () t ∧
        (copies b image routes (.const i) >>= printed b image id) s =
          .ok () t' ∧
        t.console = s.console.write (text ++ ending) ∧
        t'.console = s.console.write (copied routes text ++ ending) ∧
        (t'.console = t.console ↔
          routes = [] ∨ ∀ c ∈ text.toList, Fits c) := by
  have hprofile := (Bridge.forConfig_ends config log).of_ok hb
  have hprint : b.familyOf? Native.printStream = some Stdio.family := by
    rw [hprofile, Bridge.ofProfile, Bridge.standardFamilies, hstdio]
    rfl
  have hbuffer : b.familyOf? Native.stringBuffer = some Stdio.family := by
    rw [hprofile, Bridge.ofProfile, Bridge.standardFamilies, hstdio]
    rfl
  refine ⟨?_, toList_foldText text, foldText_eq_self_iff, ?_⟩
  · intro h hl hroom
    obtain ⟨r, t, hok, hspent, -, hget⟩ :=
      (hl.allocateText_spends hroom).has_result
    exact ⟨r, t, hok, hget, hspent.laid.read_text ⟨text, hget, rfl⟩ image⟩
  · intro s routes i id ending hs hi hid
    have hv : Reads image s.heap (.const i) text := .pooled hi
    have hdirect : Ready s 0 text.length :=
      ⟨hs.laid, hs.bounded, hs.operands, by have := hs.handles; omega,
        by simp⟩
    obtain ⟨_, t, hok, ht⟩ := (printed_ends hprint hid hdirect hv).has_result
    have hcopies := (copies_end hbuffer routes hs hv).bind
      fun v u hend => (printed_ends hprint hid hend.1 hend.2.2).imp
        fun _ t' ht' => ht'.trans (congrArg (Console.write _) hend.2.1)
    obtain ⟨_, t', hok', ht'⟩ := hcopies.has_result
    refine ⟨t, t', hok, hok', ht, ht', ?_⟩
    rw [ht, ht']
    exact write_copied_iff

/-- A pooled string whose second character has more than 16 bits. -/
def wideText : String := String.ofList ['a', Char.ofNat 0x1f600]

/-- An image with that string. -/
def wideImage : Image := ⟨[], #[], #[.str wideText], #[], 0, ⟨0, 0⟩⟩

/-- A store with room for three copies of a text of two characters. -/
def tenSlots : Store Unit :=
  ⟨.empty 4, .empty 40 4, .ofBytes #[], .empty .off, ()⟩

theorem texts_folded_wide :
    Ready tenSlots [Route.constructor, .append, .append].length 2 ∧
      ∃ t t', printed (Bridge.ofProfile Config.unix.families) wideImage 1
          (.const 0) tenSlots = .ok () t ∧
        (copies (Bridge.ofProfile Config.unix.families) wideImage
            [.constructor, .append, .append] (.const 0) >>=
          printed (Bridge.ofProfile Config.unix.families) wideImage 1)
            tenSlots = .ok () t' ∧
        t.console.output = wideText ++ "\n" ∧
        t'.console.output = String.ofList ['a', Char.ofNat 0xf600, '\n'] := by
  have hconfig : ∃ log, Bridge.forConfig Config.unix (.empty .off) =
      .ok (Bridge.ofProfile Config.unix.families : Bridge Unit) log :=
    ⟨_, rfl⟩
  obtain ⟨log, hlog⟩ := hconfig
  have hready : Ready tenSlots [Route.constructor, .append, .append].length
      wideText.length := by
    refine ⟨Heap.laid_empty 40 4, ⟨?_, ?_⟩, ?_, ?_, ?_⟩ <;> decide +kernel
  obtain ⟨-, -, -, hprint⟩ := texts_folded hlog rfl wideImage wideText
  obtain ⟨t, t', hok, hok', ht, ht', -⟩ :=
    hprint tenSlots _ 0 1 "\n" hready rfl rfl
  refine ⟨hready, t, t', hok, hok', ?_, ?_⟩
  · rw [ht]
    decide +kernel
  · rw [ht']
    decide +kernel

/-- The text that a heap gives back is not always the one that was stored. -/
theorem wide_text_altered :
    (Heap.empty 40 4).Room wideText.length ∧
      ∃ r t, Strings.allocate wideText (.empty 40 4) = .ok r t ∧
        Strings.read t wideImage (.ref r) =
          .ok (String.ofList ['a', Char.ofNat 0xf600]) ∧
        Strings.read t wideImage (.ref r) ≠ .ok wideText := by
  have hroom : (Heap.empty 40 4).Room wideText.length := by decide +kernel
  obtain ⟨r, t, hok, hspent, -, hget⟩ :=
    ((Heap.laid_empty 40 4).allocateText_spends hroom).has_result
  have hread := hspent.laid.read_text ⟨wideText, hget, rfl⟩ wideImage
  have hfold : foldText wideText = String.ofList ['a', Char.ofNat 0xf600] := by
    decide +kernel
  rw [hfold] at hread
  refine ⟨hroom, r, t, hok, hread, ?_⟩
  rw [hread]
  intro hsame
  have htext := Except.ok.inj hsame
  revert htext
  decide +kernel

end TextCopies

end SlotVm
