import SlotVm.Proofs.Store.Native
import SlotVm.Proofs.Texts

/-!
# String buffers

A string buffer is a text that can only be begun anew or grow, and no buffer
disturbs another one.  To say so, a `Ledger` is kept beside the store: the
text that each buffer should have, and each string that was handed out with
the text of its buffer at that moment.  A call that fails is not entered.

`Ledger.Kept` says that the heap holds what the ledger says.  A buffer never
changes the array of its text: an append makes a new one, and so the arrays
that were handed out keep their texts.  There is one lemma for each method
(`construct_ends`, `clear_ends`, `fill_ends`, `append_ends`, `toText_ends`),
one for a call (`Kept.run_ends`), and an induction over a row of calls, which
also says that the ledger can be kept through all of them (`Kept.serve`).  A
new buffer has a handle that is in no object of the heap and so in no entry
of the ledger (`Kept.none_of_view`).

The operands of a call are what the caller wants them to be; only the
receiver has to be a buffer that was constructed before.
-/

namespace SlotVm.StringBuffer

open SlotVm.Action SlotVm.Strings

variable {δ : Type}

/-! ## Calls and what they should do -/

/-- What can be asked of string buffers. -/
inductive Call where
  /-- A new buffer. -/
  | construct
  /-- A method of a buffer. -/
  | method (id : UInt16)

/-- A call with the operands that the caller has put in place for it. -/
structure Use where
  call : Call
  operands : Stack

/-- Makes a call. -/
def Call.run (b : Bridge δ) (image : Image) : Call → Action (Store δ) Unit
  | construct => Bridge.construct Native.stringBuffer
  | method id => b.invoke image ⟨Native.stringBuffer, id⟩

/-- How far below the top a method has its receiver. -/
def receiverDepth? (id : UInt16) : Option Nat :=
  match id.toNat with
  | 0 | 5 => some 0
  | 1 | 2 | 3 | 4 | 6 => some 1
  | _ => none

/-- The kind of argument that a method has on top. -/
def argument? (id : UInt16) : Option Stdio.Argument :=
  match id.toNat with
  | 1 | 2 => some .string
  | 3 => some .int
  | 4 => some .char
  | 6 => some .float
  | _ => none

/-- The handle `depth` places below the top. -/
def operand? (s : Store δ) (depth : Nat) : Option UInt16 :=
  match s.stack.peek depth with
  | .ok (.ref r) => some r
  | _ => none

/-- The handle that a call has left as its result. -/
def result? (t : Store δ) : Option UInt16 :=
  match t.stack.values.back? with
  | some (.ref r) => some r
  | _ => none

/-- The text that the argument of a method reads as. -/
def argumentText? (image : Image) (s : Store δ) (id : UInt16) :
    Option String := do
  let argument ← argument? id
  let v ← (s.stack.peek 0).toOption
  (argument.text "append" s.heap image v).toOption

/-- Texts of buffers, and strings that were handed out. -/
structure Ledger where
  texts : UInt16 → Option String
  strings : List (UInt16 × String)

namespace Ledger

/-- No buffers and no strings. -/
def empty : Ledger := ⟨fun _ => none, []⟩

/-- Gives a buffer a text. -/
def write (l : Ledger) (r : UInt16) (text : String) : Ledger :=
  { l with texts := fun r' => if r' = r then some text else l.texts r' }

/-- Hands out a string. -/
def handOut (l : Ledger) (r : UInt16) (text : String) : Ledger :=
  { l with strings := (r, text) :: l.strings }

/-- The ledger after a call that has succeeded: it began in the store `s`
and ended in the store `t`. -/
def after (l : Ledger) (image : Image) (s t : Store δ) : Call → Option Ledger
  | .construct => do
      return l.write (← result? t) ""
  | .method id => do
      let r ← operand? s (← receiverDepth? id)
      let old ← l.texts r
      match id.toNat with
      | 0 => return l.write r ""
      | 1 => return l.write r (foldText (← argumentText? image s id))
      | 5 => return l.handOut (← result? t) old
      | _ => return l.write r (old ++ foldText (← argumentText? image s id))

end Ledger

/-- Serves a call.  The ledger is kept beside the store.  There is no result
if the call succeeds and the ledger cannot be kept: a method has found no
buffer, or has left no handle as its result. -/
def Use.serve (b : Bridge δ) (image : Image) (u : Use)
    (x : Store δ × Ledger) : Option (Store δ × Ledger) :=
  let s := { x.1 with stack := u.operands }
  match u.call.run b image s with
  | .ok _ t => (x.2.after image s t u.call).map fun l => (t, l)
  | .error _ t => some (t, x.2)

/-- Serves calls one after another, whether they succeed or not. -/
def serve (b : Bridge δ) (image : Image) :
    List Use → Store δ × Ledger → Option (Store δ × Ledger)
  | [], x => some x
  | u :: rest, x => (u.serve b image x).bind fun y => serve b image rest y

/-- The receiver of a call, if it has one, is a buffer in the ledger. -/
def Use.onBuffer (l : Ledger) (u : Use) : Bool :=
  match u.call with
  | .construct => true
  | .method id =>
      match receiverDepth? id with
      | none => true
      | some depth =>
          match u.operands.peek depth with
          | .ok (.ref r) => (l.texts r).isSome
          | .ok _ => false
          | .error _ => true

/-- All receivers are buffers at the time of their calls. -/
def onBuffers (b : Bridge δ) (image : Image) :
    List Use → Store δ × Ledger → Bool
  | [], _ => true
  | u :: rest, x =>
      u.onBuffer x.2 &&
        (u.serve b image x).all fun y => onBuffers b image rest y

/-! ## What the heap holds -/

/-- The heap holds what the ledger says. -/
structure Ledger.Kept (l : Ledger) (h : Heap) : Prop where
  laid : h.Laid
  buffers : ∀ r text, l.texts r = some text → h.view.HoldsBuffer r text
  strings : ∀ r text, (r, text) ∈ l.strings → h.view.HoldsText r text

namespace Ledger.Kept

variable {l : Ledger} {h h' : Heap} {r : UInt16} {text old : String}

theorem empty {h : Heap} (hl : h.Laid) : Ledger.empty.Kept h where
  laid := hl
  buffers := by
    intro r text hr
    cases hr
  strings := by
    intro r text hr
    cases hr

/-- New objects are of no matter. -/
theorem mono (hk : l.Kept h) (hl : h'.Laid) (hkeeps : h.view.Keeps h'.view) :
    l.Kept h' where
  laid := hl
  buffers := fun r text hr => (hk.buffers r text hr).mono hkeeps
  strings := fun r text hr => (hk.strings r text hr).mono (hkeeps r)

/-- What is not in the heap is not in the ledger. -/
theorem none_of_view (hk : l.Kept h) (hr : h.view.get? r = none) :
    l.texts r = none ∧ ∀ text, (r, text) ∉ l.strings := by
  constructor
  · rw [Option.eq_none_iff_forall_ne_some]
    intro text htext
    rcases hk.buffers r text htext with ⟨hget, -⟩ | ⟨chars, hget, -⟩
    · cases hr.symm.trans hget
    · cases hr.symm.trans hget
  · intro text hmem
    obtain ⟨source, hget, -⟩ := hk.strings r text hmem
    cases hr.symm.trans hget

theorem of_view_eq (hk : l.Kept h) (hl : h'.Laid) (hview : h'.view = h.view) :
    l.Kept h' :=
  hk.mono hl fun r object hget => by rw [hview]; exact hget

/-- A buffer is a block of one slot. -/
theorem block (hk : l.Kept h) (hr : l.texts r = some old) :
    ∃ v, h.view.get? r = some (.chunk, [v]) := by
  rcases hk.buffers r old hr with ⟨hget, -⟩ | ⟨chars, hget, -⟩
  · exact ⟨_, hget⟩
  · exact ⟨_, hget⟩

theorem write_iff {l : Ledger} {r r' : UInt16} {text text' : String} :
    (l.write r text).texts r' = some text'
      ↔ (r' = r ∧ text = text') ∨ (r' ≠ r ∧ l.texts r' = some text') := by
  unfold Ledger.write
  by_cases h : r' = r <;> simp [h]

/-- A new buffer has no text. -/
theorem construct (hk : l.Kept h) (hl : h'.Laid)
    (hkeeps : h.view.Keeps h'.view)
    (hr : h'.view.get? r = some (.chunk, [.null])) :
    (l.write r "").Kept h' where
  laid := hl
  buffers := by
    intro r' text' htext
    rcases write_iff.1 htext with ⟨rfl, rfl⟩ | ⟨-, htext⟩
    · exact .inl ⟨hr, rfl⟩
    · exact (hk.buffers r' text' htext).mono hkeeps
  strings := fun r' text' htext => (hk.strings r' text' htext).mono (hkeeps r')

/-- Writing the slot of a buffer changes the text of that buffer and of no
other one.  Arrays are no buffers, so all of them are left alone. -/
theorem write (hk : l.Kept h) (hr : l.texts r = some old) {v : Value}
    (hl : h'.Laid)
    (hview : h'.view = { h.view with
      objects := h.view.objects.set r.toNat (.chunk, [v]) })
    (hv : v = .null ∧ text = "" ∨
      ∃ chars, v = .ref chars ∧ h.view.HoldsText chars text) :
    (l.write r text).Kept h' := by
  obtain ⟨w, hblock⟩ := hk.block hr
  have hself : h'.view.get? r = some (.chunk, [v]) := by
    rw [hview]
    exact ObjectList.get?_set_self hblock
  have hother : ∀ r', r' ≠ r → h'.view.get? r' = h.view.get? r' := by
    intro r' hne
    rw [hview]
    exact ObjectList.get?_set_ne hne
  have htexts : ∀ chars text', h.view.HoldsText chars text' →
      h'.view.HoldsText chars text' := by
    intro chars text' htext
    have hne : chars ≠ r := by
      rintro rfl
      obtain ⟨source, hget, -⟩ := htext
      rw [hblock] at hget
      cases hget
    exact htext.mono fun object hget => (hother chars hne).trans hget
  refine ⟨hl, ?_, fun r' text' h' => htexts _ _ (hk.strings r' text' h')⟩
  intro r' text' htext
  rcases write_iff.1 htext with ⟨rfl, rfl⟩ | ⟨hne, htext⟩
  · rcases hv with ⟨rfl, rfl⟩ | ⟨chars, rfl, hchars⟩
    · exact .inl ⟨hself, rfl⟩
    · exact .inr ⟨chars, hself, htexts _ _ hchars⟩
  · rcases hk.buffers r' text' htext with ⟨hget, rfl⟩ | ⟨chars, hget, hchars⟩
    · exact .inl ⟨(hother r' hne).trans hget, rfl⟩
    · exact .inr ⟨chars, (hother r' hne).trans hget, htexts _ _ hchars⟩

theorem handOut (hk : l.Kept h) (hr : h.view.HoldsText r text) :
    (l.handOut r text).Kept h where
  laid := hk.laid
  buffers := hk.buffers
  strings := by
    intro r' text' hmem
    rcases List.mem_cons.1 hmem with heq | hmem
    · cases heq
      exact hr
    · exact hk.strings r' text' hmem

/-- A store to the slot of a buffer succeeds. -/
theorem store_ends (hk : l.Kept h) (hr : l.texts r = some old) (v : Value) :
    Ends (Heap.store r 0 v) h
      (fun _ t => t.Laid ∧ t.view = { h.view with
        objects := h.view.objects.set r.toNat (.chunk, [v]) })
      (fun _ _ => False) := by
  obtain ⟨w, hblock⟩ := hk.block hr
  exact (hk.laid.storeBlock_ends hblock v).imp fun _ _ ht => ⟨ht.1, ht.2.1⟩

end Ledger.Kept

/-! ## Operands -/

section Operands

variable {s t : Store δ} {depth : Nat} {r : UInt16}

theorem operand?_eq (h : s.stack.peek depth = .ok (.ref r)) :
    operand? s depth = some r := by
  rw [operand?, h]

/-- Taking the top value takes what `peek` sees. -/
theorem pop_ends (s : Store δ) :
    Ends Store.pop s
      (fun v t => s.stack.peek 0 = .ok v ∧ t.heap = s.heap)
      (fun _ t => t.heap = s.heap ∧ s.stack.available = 0) := by
  unfold Store.pop
  apply Ends.onPart
  unfold Ends Stack.pop
  by_cases hroom : s.stack.floor < s.stack.values.size
  · rw [dif_pos hroom]
    refine ⟨?_, rfl⟩
    have havailable : 0 < s.stack.available := by
      unfold Stack.available
      omega
    rw [Stack.peek, dif_pos havailable]
    rfl
  · rw [dif_neg hroom]
    refine ⟨rfl, ?_⟩
    unfold Stack.available
    omega

/-- A value on top is the result of a call. -/
theorem push_ends (s : Store δ) (v : Value) :
    Ends (Store.push v) s
      (fun _ t => t.stack.values.back? = some v ∧ t.heap = s.heap)
      (fun _ t => t.heap = s.heap) := by
  unfold Store.push
  apply Ends.onPart
  unfold Ends Stack.push
  by_cases hroom : s.stack.values.size < s.stack.limit
  · rw [if_pos hroom]
    exact ⟨Array.back?_push, rfl⟩
  · rw [if_neg hroom]

/-- Taking operands that `peek` sees does not fail. -/
theorem popN_ends {count : Nat} (h : count ≤ s.stack.available) :
    Ends (Store.onStack (Stack.popN count)) s (fun _ t => t.heap = s.heap)
      (fun _ _ => False) := by
  apply Ends.onPart
  unfold Ends Stack.popN
  rw [if_pos h]

theorem available_of_peek {v : Value} (h : s.stack.peek depth = .ok v) :
    depth + 1 ≤ s.stack.available := by
  have hlt := (Stack.peek_ok h).2
  rw [Stack.length_operands] at hlt
  omega

theorem operandText_ends (op : String) (image : Image)
    (argument : Stdio.Argument) (s : Store δ) :
    Ends (Stdio.operandText op image argument 0) s
      (fun text t => t = s ∧ ∃ v, s.stack.peek 0 = .ok v
        ∧ argument.text op s.heap image v = .ok text)
      (fun _ t => t = s) := by
  refine Ends.read (fun text htext => ⟨rfl, ?_⟩) fun _ _ => rfl
  exact bind_eq_ok htext

/-- The operand in the place of the receiver is a buffer in the ledger. -/
def Receiver (l : Ledger) (s : Store δ) (depth : Nat) : Prop :=
  ∀ v, s.stack.peek depth = .ok v → ∃ r old, v = .ref r ∧ l.texts r = some old

theorem Receiver.text {l : Ledger} (h : Receiver l s depth)
    (hr : s.stack.peek depth = .ok (.ref r)) : ∃ old, l.texts r = some old := by
  obtain ⟨r', old, heq, htext⟩ := h _ hr
  cases heq
  exact ⟨old, htext⟩

end Operands

/-! ## Methods -/

namespace Ledger.Kept

variable {l : Ledger} {s : Store δ} {image : Image} {old : String}

/-- A store that stays the same. -/
theorem of_eq (hk : l.Kept s.heap) (_e : Fault) (t : Store δ) (ht : t = s) :
    l.Kept t.heap := by
  rw [ht]
  exact hk

theorem allocateBlock_ends (hk : l.Kept s.heap) :
    Ends (Store.onHeap (Heap.allocate false 1)) s
      (fun r t => t.heap.Laid ∧ s.heap.view.Keeps t.heap.view
        ∧ s.heap.view.get? r = none
        ∧ t.heap.view.get? r = some (.chunk, [.null]))
      (fun _ t => l.Kept t.heap) := by
  unfold Store.onHeap Heap.allocate
  apply Ends.onPart
  apply Ends.of_eq (hk.laid.allocateKind_eq .chunk false 1)
  apply (hk.laid.allocateWith_view .chunk (Array.replicate 1 .null)).mono
  · exact fun _ _ hr => hr
  · rintro e h ⟨hl, hview⟩
    exact hk.of_view_eq hl hview

/-- A new array is beside everything in the ledger. -/
theorem allocateText_ends (hk : l.Kept s.heap) (text : String) :
    Ends (Store.onHeap (Strings.allocate text)) s
      (fun r t => t.stack = s.stack ∧ l.Kept t.heap
        ∧ t.heap.view.HoldsText r (foldText text))
      (fun _ t => l.Kept t.heap) := by
  unfold Store.onHeap
  apply Ends.onPart
  apply (hk.laid.allocateText_ends text).mono
  · rintro r h ⟨hl, hkeeps, -, hr⟩
    exact ⟨rfl, hk.mono hl hkeeps, text, hr, rfl⟩
  · rintro e h ⟨hl, hview⟩
    exact hk.of_view_eq hl hview

theorem storeSlot_ends {r : UInt16} {v : Value} {text : String}
    (hk : l.Kept s.heap) (hr : l.texts r = some old)
    (hv : v = .null ∧ text = "" ∨
      ∃ chars, v = .ref chars ∧ s.heap.view.HoldsText chars text) :
    Ends (Store.storeSlot r 0 v) s
      (fun _ t => t.stack = s.stack ∧ (l.write r text).Kept t.heap)
      (fun _ t => l.Kept t.heap) := by
  unfold Store.storeSlot Store.onHeap
  apply Ends.onPart
  apply (hk.store_ends hr v).mono
  · rintro _ h ⟨hl, hview⟩
    exact ⟨rfl, hk.write hr hl hview hv⟩
  · exact fun _ _ hfalse => hfalse.elim

/-- A new buffer has a handle that nothing had before. -/
theorem construct_ends (hk : l.Kept s.heap) :
    Ends (Bridge.construct Native.stringBuffer) s
      (fun _ t => ∃ r, result? t = some r ∧ s.heap.view.get? r = none
        ∧ (l.write r "").Kept t.heap)
      (fun _ t => l.Kept t.heap) := by
  unfold Bridge.construct
  rw [if_neg (by decide)]
  refine hk.allocateBlock_ends.bind ?_
  rintro r u ⟨hl, hkeeps, hnew, hr⟩
  apply (push_ends u (.ref r)).mono
  · rintro _ t ⟨htop, hheap⟩
    refine ⟨r, ?_, hnew, ?_⟩
    · rw [result?, htop]
    · rw [hheap]
      exact hk.construct hl hkeeps hr
  · intro e t hheap
    rw [hheap]
    exact hk.mono hl hkeeps

/-- Giving a buffer a text makes a new array for it. -/
theorem setText_ends {r : UInt16} (hk : l.Kept s.heap)
    (hr : l.texts r = some old) (text : String) :
    Ends (Stdio.setText r text) s
      (fun _ t => t.stack = s.stack
        ∧ (l.write r (foldText text)).Kept t.heap)
      (fun _ t => l.Kept t.heap) := by
  unfold Stdio.setText
  refine (hk.allocateText_ends text).bind ?_
  rintro chars u ⟨hstack, hu, hchars⟩
  refine (hu.storeSlot_ends hr (.inr ⟨chars, rfl, hchars⟩)).imp ?_
  rintro _ t ⟨hstack', ht⟩
  exact ⟨hstack'.trans hstack, ht⟩

/-- Emptying a buffer. -/
theorem clear_ends (hk : l.Kept s.heap) (hrec : Receiver l s 0) :
    Ends Stdio.construct s
      (fun _ t => ∃ r, s.stack.peek 0 = .ok (.ref r)
        ∧ (l.write r "").Kept t.heap)
      (fun _ t => l.Kept t.heap) := by
  have hhandle : Ends (Store.popHandle "StringBuffer.<init>") s
      (fun r t => t.heap = s.heap ∧ s.stack.peek 0 = .ok (.ref r))
      (fun _ t => l.Kept t.heap) := by
    unfold Store.popHandle
    refine ((pop_ends s).imp_fail ?_).bind ?_
    · rintro e t ⟨hheap, -⟩
      rw [hheap]
      exact hk
    · rintro v t ⟨hv, hheap⟩
      refine Ends.lift (fun r hr => ⟨hheap, ?_⟩) fun _ _ => ?_
      · rw [hv, Value.asHandle_ok hr]
      · rw [hheap]
        exact hk
  unfold Stdio.construct
  refine hhandle.bind ?_
  rintro r u ⟨hheap, hr⟩
  obtain ⟨old, htext⟩ := hrec.text hr
  rw [← hheap] at hk
  refine (hk.storeSlot_ends htext (.inl ⟨rfl, rfl⟩)).imp ?_
  rintro _ t ⟨-, ht⟩
  exact ⟨r, hr, ht⟩

/-- Filling a buffer. -/
theorem fill_ends (hk : l.Kept s.heap) (hrec : Receiver l s 1) :
    Ends (Stdio.constructFrom image) s
      (fun _ t => ∃ r v text, s.stack.peek 1 = .ok (.ref r)
        ∧ s.stack.peek 0 = .ok v
        ∧ Stdio.Argument.text "append" s.heap image v .string = .ok text
        ∧ (l.write r (foldText text)).Kept t.heap)
      (fun _ t => l.Kept t.heap) := by
  have hsame := hk.of_eq
  unfold Stdio.constructFrom
  refine ((operandText_ends _ image .string s).imp_fail hsame).bind ?_
  rintro text _ ⟨rfl, v, hv, htext⟩
  refine ((Stdio.operandHandle_ends _ _ 1).imp_fail hsame).bind ?_
  rintro r _ ⟨rfl, hr⟩
  obtain ⟨old, hold⟩ := hrec.text hr
  refine (hk.setText_ends hold text).bind ?_
  rintro _ u ⟨hstack, hu⟩
  have htwo : 2 ≤ u.stack.available := by
    rw [hstack]
    exact available_of_peek hr
  refine ((popN_ends htwo).imp_fail fun _ _ hfalse => hfalse.elim).bind ?_
  intro _ t hheap
  refine Ends.pure ⟨r, v, text, hr, hv, htext, ?_⟩
  rw [hheap]
  exact hu

/-- The slot of a buffer is empty or leads to an array with its text. -/
theorem load_eq {r : UInt16} (hk : l.Kept s.heap) (hr : l.texts r = some old) :
    (s.heap.load r 0 = .ok .null ∧ old = "")
      ∨ ∃ chars, s.heap.load r 0 = .ok (.ref chars)
          ∧ s.heap.view.HoldsText chars old := by
  have hshows := hk.laid.shows_view
  rcases hk.buffers r old hr with ⟨hget, rfl⟩ | ⟨chars, hget, hchars⟩
  · exact .inl ⟨hshows.load_eq r _ _ 0 _ hget rfl, rfl⟩
  · exact .inr ⟨chars, hshows.load_eq r _ _ 0 _ hget rfl, hchars⟩

/-- The text of a buffer is the one in the ledger. -/
theorem bufferText_eq {r : UInt16} (hk : l.Kept s.heap)
    (hr : l.texts r = some old) : Stdio.bufferText image r s = .ok old s := by
  unfold Stdio.bufferText Action.read
  apply lift_of_ok
  rcases hk.load_eq hr with ⟨hload, rfl⟩ | ⟨chars, hload, hchars⟩
  · exact bind_of_ok hload
  · exact (bind_of_ok hload).trans (hk.laid.read_text hchars image)

/-- Appending to a buffer, which may be the argument too. -/
theorem append_ends (hk : l.Kept s.heap) (hrec : Receiver l s 1)
    (argument : Stdio.Argument) :
    Ends (Stdio.append image argument) s
      (fun _ t => ∃ r v text old, s.stack.peek 1 = .ok (.ref r)
        ∧ l.texts r = some old ∧ s.stack.peek 0 = .ok v
        ∧ argument.text "append" s.heap image v = .ok text
        ∧ (l.write r (old ++ foldText text)).Kept t.heap)
      (fun _ t => l.Kept t.heap) := by
  have hsame := hk.of_eq
  unfold Stdio.append
  refine ((operandText_ends _ image argument s).imp_fail hsame).bind ?_
  rintro text _ ⟨rfl, v, hv, htext⟩
  refine ((Stdio.operandHandle_ends _ _ 1).imp_fail hsame).bind ?_
  rintro r _ ⟨rfl, hr⟩
  obtain ⟨old, hold⟩ := hrec.text hr
  refine Ends.bind_ok (hk.bufferText_eq hold) ?_
  refine (hk.setText_ends hold (old ++ text)).bind ?_
  rintro _ u ⟨hstack, hu⟩
  refine ((pop_ends u).imp_fail ?_).bind ?_
  · rintro e t ⟨-, hnone⟩
    have := available_of_peek hv
    rw [hstack] at hnone
    omega
  · rintro _ t ⟨-, hheap⟩
    refine Ends.pure ⟨r, v, text, old, hr, hold, hv, htext, ?_⟩
    rw [foldText_append, (hk.buffers r old hold).folded] at hu
    rw [hheap]
    exact hu

/-- Handing out an array that holds the text of a buffer. -/
theorem answer_ends {c : UInt16} {u : Store δ} (hu : l.Kept u.heap)
    (hc : u.heap.view.HoldsText c old) :
    Ends (do let _ ← Store.pop; Store.push (.ref c)) u
      (fun _ t => result? t = some c ∧ (l.handOut c old).Kept t.heap)
      (fun _ t => l.Kept t.heap) := by
  refine ((pop_ends u).imp_fail ?_).bind ?_
  · rintro e t ⟨hheap, -⟩
    rw [hheap]
    exact hu
  · rintro v w ⟨-, hheap⟩
    apply (push_ends w (.ref c)).mono
    · rintro _ t ⟨htop, hheap'⟩
      refine ⟨by rw [result?, htop], ?_⟩
      rw [hheap', hheap]
      exact hu.handOut hc
    · intro e t hheap'
      rw [hheap', hheap]
      exact hu

/-- Handing out the text of a buffer. -/
theorem toText_ends (hk : l.Kept s.heap) (hrec : Receiver l s 0) :
    Ends Stdio.toText s
      (fun _ t => ∃ r c old, s.stack.peek 0 = .ok (.ref r)
        ∧ l.texts r = some old ∧ result? t = some c
        ∧ (l.handOut c old).Kept t.heap)
      (fun _ t => l.Kept t.heap) := by
  have hsame := hk.of_eq
  unfold Stdio.toText
  refine ((Stdio.operandHandle_ends _ _ 0).imp_fail hsame).bind ?_
  rintro r _ ⟨rfl, hr⟩
  obtain ⟨old, hold⟩ := hrec.text hr
  rename_i s
  rcases hk.load_eq hold with ⟨hload, rfl⟩ | ⟨chars, hload, hchars⟩
  · refine Ends.bind_ok (lift_of_ok hload) ?_
    refine (hk.allocateText_ends "").bind ?_
    rintro c u ⟨hstack, hu, hc⟩
    refine (hu.answer_ends hc).imp ?_
    rintro _ t ⟨hresult, ht⟩
    exact ⟨r, c, _, hr, hold, hresult, ht⟩
  · refine Ends.bind_ok (lift_of_ok hload) ?_
    refine (hk.answer_ends hchars).imp ?_
    rintro _ t ⟨hresult, ht⟩
    exact ⟨r, chars, _, hr, hold, hresult, ht⟩

/-- A method that succeeds does to the heap what it does to the ledger, and
one that fails does nothing to either. -/
theorem method_ends {id : UInt16} (hk : l.Kept s.heap)
    (hrec : ∀ depth, receiverDepth? id = some depth → Receiver l s depth) :
    Ends (Stdio.stringBuffer image ⟨Native.stringBuffer, id⟩) s
      (fun _ t => ∃ l', l.after image s t (.method id) = some l'
        ∧ l'.Kept t.heap)
      (fun _ t => l.Kept t.heap) := by
  have happend : ∀ argument, receiverDepth? id = some 1
        ∧ argument? id = some argument
        ∧ id.toNat ≠ 0 ∧ id.toNat ≠ 1 ∧ id.toNat ≠ 5 →
      Ends (Stdio.append image argument) s
        (fun _ t => ∃ l', l.after image s t (.method id) = some l'
          ∧ l'.Kept t.heap)
        (fun _ t => l.Kept t.heap) := by
    rintro argument ⟨hdepth, hargument, h0, h1, h5⟩
    refine (hk.append_ends (hrec 1 hdepth) argument).imp ?_
    rintro _ t ⟨r, v, text, old, hr, hold, hv, htext, ht⟩
    refine ⟨_, ?_, ht⟩
    have hargumentText : argumentText? image s id = some text := by
      simp [argumentText?, hargument, hv, htext, Except.toOption]
    simp only [after, hdepth]
    simp [operand?_eq hr, hold, hargumentText]
  unfold Stdio.stringBuffer
  split
  all_goals rename_i hid
  · have hdepth : receiverDepth? id = some 0 := by simp [receiverDepth?, hid]
    refine (hk.clear_ends (hrec 0 hdepth)).imp ?_
    rintro _ t ⟨r, hr, ht⟩
    obtain ⟨old, hold⟩ := (hrec 0 hdepth).text hr
    exact ⟨_, by simp [after, hdepth, hid, operand?_eq hr, hold], ht⟩
  · have hdepth : receiverDepth? id = some 1 := by simp [receiverDepth?, hid]
    refine (hk.fill_ends (hrec 1 hdepth)).imp ?_
    rintro _ t ⟨r, v, text, hr, hv, htext, ht⟩
    obtain ⟨old, hold⟩ := (hrec 1 hdepth).text hr
    have hargument : argumentText? image s id = some text := by
      simp [argumentText?, argument?, hid, hv, htext, Except.toOption]
    exact ⟨_, by simp [after, hdepth, hid, operand?_eq hr, hold, hargument], ht⟩
  · exact happend .string (by simp [receiverDepth?, argument?, hid])
  · exact happend .int (by simp [receiverDepth?, argument?, hid])
  · exact happend .char (by simp [receiverDepth?, argument?, hid])
  · have hdepth : receiverDepth? id = some 0 := by simp [receiverDepth?, hid]
    refine (hk.toText_ends (hrec 0 hdepth)).imp ?_
    rintro _ t ⟨r, c, old, hr, hold, hresult, ht⟩
    exact ⟨_, by simp [after, hdepth, hid, operand?_eq hr, hold, hresult], ht⟩
  · exact happend .float (by simp [receiverDepth?, argument?, hid])
  · exact Ends.throw hk

end Ledger.Kept

/-! ## Calls through the bridge -/

/-- The string buffer is a class of the console family. -/
theorem family_eq {b : Bridge δ} (hb : b.Standard) {family : Family δ}
    (h : b.familyOf? Native.stringBuffer = some family) :
    family = Stdio.family := by
  rcases hb.familyOf? h with rfl | rfl
  · unfold Bridge.familyOf? at h
    obtain ⟨entry, hfind, hroot⟩ := Option.map_eq_some_iff.1 h
    have hhandles := List.find?_some hfind
    rw [hroot] at hhandles
    cases hhandles
  · rfl

theorem Ledger.Kept.invoke_ends {b : Bridge δ} (hb : b.Standard)
    {l : Ledger} {s : Store δ} {image : Image} {id : UInt16}
    (hk : l.Kept s.heap)
    (hrec : ∀ depth, receiverDepth? id = some depth → Receiver l s depth) :
    Ends (b.invoke image ⟨Native.stringBuffer, id⟩) s
      (fun _ t => ∃ l', l.after image s t (.method id) = some l'
        ∧ l'.Kept t.heap)
      (fun _ t => l.Kept t.heap) := by
  unfold Bridge.invoke
  cases hfamily : b.familyOf? Native.stringBuffer with
  | none => exact Ends.bind_ok rfl (Ends.throw hk)
  | some family =>
    rw [family_eq hb hfamily]
    -- a method sees neither the log nor what stands in it
    refine Ends.bind_ok rfl ?_
    exact method_ends (s := { s with log := _ }) hk hrec

theorem Ledger.Kept.run_ends {b : Bridge δ} (hb : b.Standard)
    {l : Ledger} {s : Store δ} {image : Image} {call : Call}
    (hk : l.Kept s.heap)
    (hrec : Use.onBuffer l ⟨call, s.stack⟩ = true) :
    Ends (call.run b image) s
      (fun _ t => ∃ l', l.after image s t call = some l' ∧ l'.Kept t.heap)
      (fun _ t => l.Kept t.heap) := by
  cases call with
  | construct =>
    refine hk.construct_ends.imp ?_
    rintro _ t ⟨r, hr, -, ht⟩
    exact ⟨_, by simp [after, hr], ht⟩
  | method id =>
    refine hk.invoke_ends hb ?_
    intro depth hdepth v hv
    simp only [Use.onBuffer, hdepth, hv] at hrec
    cases v with
    | ref r =>
      obtain ⟨old, hold⟩ := Option.isSome_iff_exists.1 hrec
      exact ⟨r, old, rfl, hold⟩
    | _ => cases hrec

/-! ## Rows of calls -/

/-- The ledger can be kept through a call. -/
theorem Ledger.Kept.use {b : Bridge δ} (hb : b.Standard) {image : Image}
    {u : Use} {x : Store δ × Ledger} (hk : x.2.Kept x.1.heap)
    (hrec : u.onBuffer x.2 = true) :
    ∃ y, u.serve b image x = some y ∧ y.2.Kept y.1.heap := by
  have hends : Ends (u.call.run b image) { x.1 with stack := u.operands }
      (fun _ t => ∃ l', x.2.after image { x.1 with stack := u.operands } t
        u.call = some l' ∧ l'.Kept t.heap)
      (fun _ t => x.2.Kept t.heap) := run_ends hb hk hrec
  unfold Use.serve
  cases hrun : u.call.run b image { x.1 with stack := u.operands } with
  | ok _ t =>
    obtain ⟨l', hafter, hl'⟩ := hends.of_ok hrun
    exact ⟨(t, l'), by simp [hrun, hafter], hl'⟩
  | error e t =>
    exact ⟨(t, x.2), by simp [hrun], hends.of_error hrun⟩

theorem Ledger.Kept.serve {b : Bridge δ} (hb : b.Standard) {image : Image}
    {uses : List Use} {x : Store δ × Ledger} (hk : x.2.Kept x.1.heap)
    (hrec : onBuffers b image uses x = true) :
    ∃ y, StringBuffer.serve b image uses x = some y ∧ y.2.Kept y.1.heap := by
  induction uses generalizing x with
  | nil => exact ⟨x, rfl, hk⟩
  | cons u rest ih =>
    rw [onBuffers, Bool.and_eq_true] at hrec
    obtain ⟨y, hserve, hy⟩ := hk.use hb hrec.1
    rw [hserve] at hrec
    rw [StringBuffer.serve, hserve]
    exact ih hy hrec.2

/-- **String buffers are texts that grow, independent of each other.**  The
ledger can be kept through every row of calls.  At every point, each buffer
reads as the text in the ledger, and so does each string that was handed out,
however the buffers have grown since.  A buffer that is constructed then has
a handle that neither a buffer nor a string has. -/
theorem serve_reads {config : Config} {log log' : Log} {b : Bridge δ}
    (hb : Bridge.forConfig config log = .ok b log') (image : Image)
    {s : Store δ} (hl : s.heap.Laid) (uses : List Use)
    (hrec : onBuffers b image uses (s, .empty) = true) :
    ∃ t l, serve b image uses (s, .empty) = some (t, l)
      ∧ (∀ r text, l.texts r = some text →
          Strings.read t.heap image (.ref r) = .ok text)
      ∧ (∀ r text, (r, text) ∈ l.strings →
          Strings.read t.heap image (.ref r) = .ok text)
      ∧ ∀ operands t',
          Call.construct.run b image { t with stack := operands } = .ok () t' →
          ∃ r, result? t' = some r ∧ ¬ t.heap.Contains r
            ∧ l.texts r = none ∧ ∀ text, (r, text) ∉ l.strings := by
  have hstandard := (Bridge.forConfig_standard config log).of_ok hb
  obtain ⟨⟨t, l⟩, hserve, hkept⟩ := (Ledger.Kept.empty hl).serve hstandard hrec
  refine ⟨t, l, hserve, ?_, ?_, ?_⟩
  · intro r text hr
    exact hkept.laid.read_buffer (hkept.buffers r text hr) image
  · intro r text hr
    exact hkept.laid.read_text (hkept.strings r text hr) image
  · intro operands t' hrun
    obtain ⟨r, hr, hnew, -⟩ :=
      (Ledger.Kept.construct_ends (s := { t with stack := operands })
        hkept).of_ok hrun
    exact ⟨r, hr, Heap.not_contains_of_view hnew, hkept.none_of_view hnew⟩

/-! ### A row of calls -/

/-- The families of a desktop host. -/
def hostBridge : Bridge Unit :=
  ⟨some Config.unix.families,
    [(.object, Family.root), (.console, Stdio.family)]⟩

theorem forConfig_unix :
    ∃ log, Bridge.forConfig Config.unix (.empty .off) = .ok hostBridge log :=
  ⟨_, rfl⟩

/-- A pooled string whose second character has more than 16 bits, and the low
16 of them are half of a pair. -/
def wideString : Image where
  classes := []
  methods := #[]
  constants := #[.str (String.ofList ['a', Char.ofNat 0x1d841])]
  code := #[]
  staticFields := 0
  main := ⟨0, 0⟩

/-- A heap of ten slots. -/
def smallStore : Store Unit :=
  ⟨.empty 8, .empty 40 4, .ofBytes #[], .empty .off, ()⟩

/-- Two buffers.  The first one gets the pooled string, hands its text out
and doubles.  The second one refuses a null as a number and gets the text
that was handed out; after that there is no room for the first one to
grow. -/
def twoBuffers : List Use :=
  [⟨.construct, ⟨#[], 8, 0⟩⟩, ⟨.construct, ⟨#[], 8, 0⟩⟩,
    ⟨.method 2, ⟨#[.ref 0, .const 0], 8, 0⟩⟩,
    ⟨.method 5, ⟨#[.ref 0], 8, 0⟩⟩,
    ⟨.method 2, ⟨#[.ref 0, .ref 0], 8, 0⟩⟩,
    ⟨.method 3, ⟨#[.ref 1, .null], 8, 0⟩⟩,
    ⟨.method 2, ⟨#[.ref 1, .ref 2], 8, 0⟩⟩,
    ⟨.method 2, ⟨#[.ref 0, .ref 1], 8, 0⟩⟩]

theorem serve_reads_twoBuffers :
    (∃ log, Bridge.forConfig Config.unix (.empty .off) = .ok hostBridge log)
      ∧ smallStore.heap.Laid
      ∧ onBuffers hostBridge wideString twoBuffers (smallStore, .empty) = true
      ∧ ∃ t l, serve hostBridge wideString twoBuffers (smallStore, .empty)
            = some (t, l)
          ∧ Strings.read t.heap wideString (.ref 0) = .ok "a\ufffda\ufffd"
          ∧ Strings.read t.heap wideString (.ref 1) = .ok "a\ufffd"
          ∧ l.strings = [(2, "a\ufffd")]
          ∧ Strings.read t.heap wideString (.ref 2) = .ok "a\ufffd" := by
  have hlaid : smallStore.heap.Laid := Heap.laid_empty 40 4
  have hrec : onBuffers hostBridge wideString twoBuffers (smallStore, .empty)
      = true := by decide +kernel
  obtain ⟨log, hb⟩ := forConfig_unix
  obtain ⟨t, l, hserve, htexts, hstrings, -⟩ :=
    serve_reads hb wideString hlaid twoBuffers hrec
  have hledger : (serve hostBridge wideString twoBuffers
      (smallStore, .empty)).map (fun y =>
        (y.2.texts 0, y.2.texts 1, y.2.strings)) =
      some (some "a\ufffda\ufffd", some "a\ufffd", [(2, "a\ufffd")]) := by
    decide +kernel
  rw [hserve] at hledger
  injection hledger with hledger
  injection hledger with hfirst hledger
  injection hledger with hsecond hstring
  refine ⟨⟨log, hb⟩, hlaid, hrec, t, l, hserve, htexts 0 _ hfirst,
    htexts 1 _ hsecond, hstring, hstrings 2 _ ?_⟩
  have hmem : (2, "a\ufffd") ∈ l.strings := by
    rw [show l.strings = _ from hstring]
    exact List.mem_singleton.2 rfl
  exact hmem

end SlotVm.StringBuffer
