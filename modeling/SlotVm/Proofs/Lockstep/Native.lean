import SlotVm.Proofs.Lockstep.Data
import SlotVm.Proofs.Store.Native
import SlotVm.Proofs.Texts

/-!
# Native methods side by side

The native methods do the same on two stores of a variation.  They look at
their operands through `peek` and `pop`, which do not reach below the floor,
and at the heap through its objects.  The capacity of the heap is asked for
by an allocation only, so a string reads the same on both sides
(`Strings.read_withCapacity`).

A standard bridge has the families of this library only, and a native call
through it is the same on both sides (`Uniform.invokeBridge`).
-/

namespace SlotVm

open SlotVm.Action

/-! ## Strings -/

/-- Reading a string does not depend on the capacity.  The induction is on
the number of string buffers that may stand in front of the array. -/
theorem Strings.readHeap_withCapacity {h : Heap} {capacity : Nat}
    (hl : h.Laid) (hle : h.capacity ≤ capacity) (fuel : Nat)
    (handle : UInt16) :
    readHeap (h.withCapacity capacity) fuel handle =
      readHeap h fuel handle := by
  induction fuel generalizing handle with
  | zero => rfl
  | succ fuel ih =>
    simp only [readHeap, Heap.header_withCapacity, hl.slots_withCapacity hle,
      Heap.load_withCapacity, ih]

theorem Strings.read_withCapacity {h : Heap} {capacity : Nat} (hl : h.Laid)
    (hle : h.capacity ≤ capacity) (image : Image) (x : Value) :
    read (h.withCapacity capacity) image x = read h image x := by
  cases x with
  | ref handle => exact readHeap_withCapacity hl hle _ handle
  | null | zero | int | float | const => rfl

theorem Stdio.Argument.text_withCapacity {h : Heap} {capacity : Nat}
    (hl : h.Laid) (hle : h.capacity ≤ capacity) (op : String) (image : Image)
    (x : Value) (argument : Argument) :
    argument.text op (h.withCapacity capacity) image x =
      argument.text op h image x := by
  cases argument with
  | string => exact Strings.read_withCapacity hl hle image x
  | int | char | float => rfl

namespace Variation.Uniform

variable {δ α : Type} {v : Variation} {k : Nat}

/-! ## Console classes -/

theorem operandText (op : String) (image : Image)
    (argument : Stdio.Argument) (depth : Nat) :
    v.Uniform δ v.height (Stdio.operandText op image argument depth)
      (Stdio.operandText op image argument depth) := by
  apply Uniform.read
  intro s s' hs
  obtain ⟨hl, capacity, heq, hle, -⟩ := hs.heap
  simp only [hs.stack.peek_eq depth, heq,
    Stdio.Argument.text_withCapacity hl hle]

theorem operandHandle (op : String) (depth : Nat) :
    v.Uniform δ v.height (Stdio.operandHandle op depth)
      (Stdio.operandHandle op depth) :=
  (peek depth).bind fun x =>
  Uniform.lift (x.asHandle op)

theorem printStream (image : Image) (r : MethodRef) :
    v.Uniform δ v.height (Stdio.printStream image r)
      (Stdio.printStream image r) := by
  unfold Stdio.printStream
  cases Stdio.printMethod? r.methodId with
  | none => exact Uniform.throw _
  | some method =>
    obtain ⟨argument?, ending⟩ := method
    cases argument? with
    | none =>
      exact pop.bind fun _ =>
        print ending
    | some argument =>
      exact (operandText _ image argument 0).bind fun text =>
        pop.bind fun _ =>
        pop.bind fun _ =>
        print (text ++ ending)

/-- Both sides read the same byte. -/
theorem readByte : v.Uniform δ k Stdio.readByte Stdio.readByte := by
  apply Mirrors.modifyGet
  intro s s' hs
  rw [hs.console_eq]
  cases s.console.next? with
  | none => exact ⟨rfl, hs⟩
  | some b =>
    exact ⟨rfl, hs.stack, hs.heap, rfl, hs.log_eq, hs.devices_eq⟩

theorem available : v.Uniform δ k Stdio.available Stdio.available := by
  intro s s' hs
  refine Follows.bind_ok rfl rfl ?_
  simp only [hs.console_eq]
  exact Uniform.pure _ s s' hs

theorem answer (n : Int32) :
    v.Uniform δ v.height (Stdio.answer n) (Stdio.answer n) :=
  pop.bind fun _ =>
  push _

theorem inputStream (r : MethodRef) :
    v.Uniform δ v.height (Stdio.inputStream r)
      (Stdio.inputStream r) := by
  unfold Stdio.inputStream
  split
  · exact available.bind answer
  · exact readByte.bind answer
  · exact Uniform.throw _

theorem bufferText (image : Image) (buffer : UInt16) :
    v.Uniform δ k (Stdio.bufferText image buffer)
      (Stdio.bufferText image buffer) := by
  apply Uniform.read
  intro s s' hs
  obtain ⟨hl, capacity, heq, hle, -⟩ := hs.heap
  simp only [heq, Heap.load_withCapacity, Strings.read_withCapacity hl hle]

theorem allocateText (text : String) :
    v.Uniform δ k (Store.onHeap (Strings.allocate text))
      (Store.onHeap (Strings.allocate text)) :=
  Uniform.onHeap (heap_allocate fun _ hl => hl.allocateText_eq text)

theorem setText (buffer : UInt16) (text : String) :
    v.Uniform δ k (Stdio.setText buffer text)
      (Stdio.setText buffer text) := by
  unfold Stdio.setText
  exact (allocateText text).bind fun chars =>
    storeSlot buffer 0 (.ref chars)

theorem append (image : Image) (argument : Stdio.Argument) :
    v.Uniform δ v.height (Stdio.append image argument)
      (Stdio.append image argument) :=
  (operandText _ image argument 0).bind fun suffix =>
  (operandHandle _ 1).bind fun buffer =>
  (bufferText image buffer).bind fun text =>
  (setText buffer (text ++ suffix)).bind fun _ =>
  pop.bind fun _ =>
  Uniform.pure _

theorem constructFrom (image : Image) :
    v.Uniform δ v.height (Stdio.constructFrom image)
      (Stdio.constructFrom image) :=
  (operandText _ image .string 0).bind fun text =>
  (operandHandle _ 1).bind fun buffer =>
  (setText buffer text).bind fun _ =>
  (popN 2).bind fun _ =>
  Uniform.pure _

theorem toText : v.Uniform δ v.height Stdio.toText Stdio.toText := by
  refine (operandHandle _ 0).bind fun buffer => ?_
  refine (loadSlot buffer 0).bind fun held => ?_
  have hrest : ∀ chars : UInt16, v.Uniform δ v.height
      (do let _ ← Store.pop; Store.push (.ref chars))
      (do let _ ← Store.pop; Store.push (.ref chars)) :=
    fun chars => pop.bind fun _ => push (.ref chars)
  cases held with
  | ref chars => exact hrest chars
  | null | zero | int | float | const =>
    exact (allocateText "").bind hrest

theorem stringBuffer (image : Image) (r : MethodRef) :
    v.Uniform δ v.height (Stdio.stringBuffer image r)
      (Stdio.stringBuffer image r) := by
  unfold Stdio.stringBuffer
  split
  · exact (popHandle _).bind fun buffer =>
      storeSlot buffer 0 .null
  · exact constructFrom image
  · exact append image .string
  · exact append image .int
  · exact append image .char
  · exact toText
  · exact append image .float
  · exact Uniform.throw _

/-! ## Families -/

/-- The methods of the root class. -/
theorem invokeRoot (image : Image) (r : MethodRef) :
    v.Uniform δ v.height (Family.root.invoke image r)
      (Family.root.invoke image r) := by
  unfold Family.root
  by_cases hmethod : r.methodId ≠ Native.constructorId
  · simp only [if_pos hmethod]
    exact Uniform.throw _
  · simp only [if_neg hmethod]
    exact pop.bind fun _ =>
      Uniform.pure _

/-- The methods of the console classes. -/
theorem invokeConsole (image : Image) (r : MethodRef) :
    v.Uniform δ v.height (Stdio.family.invoke image r)
      (Stdio.family.invoke image r) := by
  unfold Stdio.family
  by_cases hprint : r.classId = Native.printStream
  · simp only [if_pos hprint]
    exact printStream image r
  · by_cases hinput : r.classId = Native.inputStream
    · simp only [if_neg hprint, if_pos hinput]
      exact inputStream r
    · by_cases hbuffer : r.classId = Native.stringBuffer
      · simp only [if_neg hprint, if_neg hinput, if_pos hbuffer]
        exact stringBuffer image r
      · simp only [if_neg hprint, if_neg hinput, if_neg hbuffer]
        exact Uniform.throw _

/-- A native method of a standard bridge. -/
theorem invokeBridge {b : Bridge δ} (hb : b.Standard) (image : Image)
    (r : MethodRef) :
    v.Uniform δ v.height (b.invoke image r) (b.invoke image r) := by
  unfold Bridge.invoke
  cases hfamily : b.familyOf? r.classId with
  | none =>
    exact (record _ _ _).bind fun _ =>
      Uniform.throw _
  | some family =>
    refine (record _ _ _).bind fun _ => ?_
    rcases hb.familyOf? hfamily with rfl | rfl
    · exact invokeRoot image r
    · exact invokeConsole image r

end Variation.Uniform

end SlotVm
