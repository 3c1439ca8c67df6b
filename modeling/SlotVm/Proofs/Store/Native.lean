import SlotVm.Proofs.Families
import SlotVm.Proofs.Store.Ready
import SlotVm.Proofs.Texts

/-!
# Native methods

The native methods keep to `Store.Change` as the instructions do.  They read
strings, and reading a string follows handles from slot to slot; all of them
are grounded, so `Strings.read` finds every object and every constant that
it comes to and fails for the kind of an operand only.

A method that writes or prints does so when nothing can fail any more.  The
two methods that take operands after they have written have looked at these
operands before, so the operands are there (`Change.popN_sure`).

`Bridge.Standard` says that a bridge has no other families than the root
class and the console, which is what `Bridge.forConfig` makes.
-/

namespace SlotVm

open SlotVm.Action

/-! ## Reading strings -/

namespace Strings

variable {δ : Type} {p : Program} {statics : UInt16} {t : Store δ}
variable {e : Fault}

theorem readUnits_error {char : Int32 → Char} {slots : Array Value}
    (he : readUnits char slots = .error e) : e.Common := by
  unfold readUnits at he
  rcases bind_eq_error he with hchars | ⟨chars, -, hchars⟩
  · obtain ⟨v, -, hv⟩ := mapM_eq_error hchars
    rcases bind_eq_error hv with hn | ⟨n, -, hn⟩
    · exact Value.asInt_error hn
    · cases hn
  · cases hchars

theorem slots_error {h : Heap} {r : UInt16} {entry : Header}
    (hentry : h.objects[r.toNat]? = some entry) : h.slots r ≠ .error e := by
  intro he
  unfold Heap.slots at he
  rw [Heap.header_of_entry hentry] at he
  cases he

/-- Reading a string in a sound heap meets no handle that the heap does not
have.  The induction is on the number of string buffers that may stand in
front of the array. -/
theorem readHeap_error (ht : t.Sound p statics) (fuel : Nat) (r : UInt16)
    (hr : t.heap.Contains r) (he : readHeap t.heap fuel r = .error e) :
    e.Common := by
  induction fuel generalizing r with
  | zero =>
    cases he
    trivial
  | succ fuel ih =>
    unfold readHeap at he
    obtain ⟨entry, hentry⟩ := Heap.contains_iff.1 hr
    simp only [Heap.header_of_entry hentry, bind, Except.bind] at he
    split at he
    · rcases bind_eq_error he with hslots | ⟨slots, -, hslots⟩
      · exact absurd hslots (slots_error hentry)
      · exact readUnits_error hslots
    · rcases bind_eq_error he with hslots | ⟨slots, -, hslots⟩
      · exact absurd hslots (slots_error hentry)
      · exact readUnits_error hslots
    · split at he
      · rename_i hlen
        rcases bind_eq_error he with hload | ⟨v, hload, hv⟩
        · rcases Heap.load_error hload with ⟨hnot, -⟩ | ⟨entry', hentry', hle, -⟩
          · exact absurd hr hnot
          · rw [hentry] at hentry'
            cases hentry'
            omega
        · obtain ⟨entry', -, -, hslot⟩ := Heap.load_ok ht.laid hload
          have hgrounded := ht.slots v (Array.mem_of_getElem? hslot)
          cases v with
          | ref chars => exact ih chars hgrounded.1 hv
          | null | zero => cases hv
          | int | float | const =>
            cases hv
            trivial
      · cases he
        trivial
    · cases he
      trivial

/-- Reading a string fails for the kind of the operand, or of what it leads
to, only. -/
theorem read_error (ht : t.Sound p statics) {v : Value}
    (hv : v.Grounded p statics t.heap)
    (he : read t.heap p.image v = .error e) : e.Common := by
  cases v with
  | null | zero => cases he
  | ref r => exact readHeap_error ht _ r hv.1 he
  | const i =>
    obtain ⟨text, htext⟩ := hv
    simp only [read, Image.string, htext] at he
    cases he
  | int | float =>
    cases he
    trivial

end Strings

namespace Stdio

/-- A text of an argument that cannot be had. -/
theorem Argument.text_error {δ : Type} {p : Program} {statics : UInt16}
    {t : Store δ} {op : String} {v : Value} {argument : Argument} {e : Fault}
    (ht : t.Sound p statics) (hv : v.Grounded p statics t.heap)
    (he : argument.text op t.heap p.image v = .error e) : e.Common := by
  cases argument with
  | string => exact Strings.read_error ht hv he
  | int | char =>
    rcases bind_eq_error he with hn | ⟨n, -, hn⟩
    · exact Value.asInt_error hn
    · cases hn
  | float =>
    rcases bind_eq_error he with hx | ⟨x, -, hx⟩
    · exact Value.asFloat_error hx
    · cases hx

/-- The handle in an operand, which stays where it is. -/
theorem operandHandle_ends {δ : Type} (op : String) (s : Store δ)
    (depth : Nat) :
    Ends (operandHandle op depth) s
      (fun r t => t = s ∧ s.stack.peek depth = .ok (.ref r))
      (fun _ t => t = s) := by
  have hpeek : Ends (Store.peek depth) s
      (fun v t => t = s ∧ s.stack.peek depth = .ok v) (fun _ t => t = s) :=
    Ends.read (fun v hv => ⟨rfl, hv⟩) fun _ _ => rfl
  refine hpeek.bind ?_
  rintro v t ⟨rfl, hv⟩
  refine Ends.lift (fun r hr => ⟨rfl, ?_⟩) fun _ _ => rfl
  rw [hv, Value.asHandle_ok hr]

end Stdio

namespace Store

variable {δ α : Type} {p : Program} {K : Value → Prop} {W : UInt16 → Prop}
variable {statics : UInt16} {s t : Store δ} {F : Fault → Prop}

/-! ## Operands that are there -/

/-- Taking operands that are known to be there. -/
theorem Change.popN_sure (hc : Change p K W s t) {count : Nat}
    (hcount : count ≤ t.stack.operands.length) :
    Ends (Store.onStack (Stack.popN count)) t (fun _ u => Change p K W s u)
      (Stopped p K s F) := by
  apply Ends.onPart
  apply (Stack.popN_ends hc.stack.bounded count).mono
  · intro args stack hend
    obtain ⟨habove, -, hoperands⟩ := hend
    exact hc.setStack (hc.takes_lower habove hoperands)
  · intro e stack hend
    obtain ⟨-, hshort, -⟩ := hend
    omega

/-- Taking the last operand if it is known to be there. -/
theorem Change.pop_sure (hc : Change p K W s t)
    (hne : 0 < t.stack.operands.length) :
    Ends Store.pop t (fun _ u => Change p K W s u) (Stopped p K s F) := by
  unfold Store.pop
  apply Ends.onPart
  apply (Stack.pop_ends hc.stack.bounded).mono
  · intro v stack hend
    obtain ⟨habove, hoperands⟩ := hend
    exact hc.setStack (hc.takes_lower habove hoperands)
  · intro e stack hend
    obtain ⟨-, hnil, -⟩ := hend
    rw [hnil] at hne
    cases hne

/-- Printing is a change, but not a quiet one. -/
theorem Quiet.print (ht : Quiet p K s t) (text : String) :
    Ends (Store.print text) t (fun _ u => Change p K W s u)
      (Stopped p K s F) :=
  Ends.modify (ht.change.congr rfl rfl rfl)

/-- A log message changes nothing else. -/
theorem record_ends (s : Store δ) (level : Level) (target : String)
    (text : Unit → String) :
    Ends (Store.record level target text) s (fun _ t => Same s t)
      (Stopped p K s F) :=
  Ends.modify ⟨rfl, rfl, rfl⟩

namespace Ready

/-! ## Streams -/

section Streams

variable (h : Ready p K statics s F)

include h

/-- The text of an operand, which stays where it is. -/
theorem operandText (op : String) (argument : Stdio.Argument) (depth : Nat)
    (ht : Quiet p K s t) :
    Ends (Stdio.operandText op p.image argument depth) t
      (fun _ u => u = t ∧ depth < t.stack.operands.length)
      (Stopped p K s F) := by
  apply Ends.read
  · intro text htext
    obtain ⟨v, hv, -⟩ := bind_eq_ok htext
    exact ⟨rfl, (Stack.peek_ok hv).2⟩
  · intro e he
    rcases bind_eq_error he with hpeek | ⟨v, hv, htext⟩
    · rw [Stack.peek_error hpeek]
      exact ⟨ht, h.common _ trivial⟩
    · have hgrounded := h.grounded ht (ht.operands v (Stack.peek_ok hv).1)
      exact ⟨ht, h.common e
        (Stdio.Argument.text_error (h.sound_of_quiet ht) hgrounded htext)⟩

theorem printStream (r : MethodRef) :
    Ends (Stdio.printStream p.image r) s (fun _ u => Change p K W s u)
      (Stopped p K s F) := by
  unfold Stdio.printStream
  cases Stdio.printMethod? r.methodId with
  | none => exact Ends.throw ⟨h.quiet_self, h.common _ trivial⟩
  | some printed =>
    obtain ⟨argument, ending⟩ := printed
    cases argument with
    | none =>
      refine (h.pop h.quiet_self).bind ?_
      intro v t hend
      obtain ⟨ht, -⟩ := hend
      exact ht.print ending
    | some argument =>
      refine (h.operandText _ argument 0 h.quiet_self).bind ?_
      intro text t hend
      obtain ⟨rfl, -⟩ := hend
      refine (h.pop h.quiet_self).bind ?_
      intro v t hend
      obtain ⟨ht, -⟩ := hend
      refine (h.pop ht).bind ?_
      intro v' u hend
      obtain ⟨hu, -⟩ := hend
      exact hu.print (text ++ ending)

/-- Replacing the receiver by a number. -/
theorem answer {n : Int32}
    (hn : p.config.word.InRange n ∨ n = Int32.ofNat s.console.available)
    (ht : Quiet p K s t) :
    Ends (Stdio.answer n) t (fun _ u => Quiet p K s u)
      (Stopped p K s F) := by
  refine (h.pop ht).bind ?_
  intro v u hend
  obtain ⟨hu, -⟩ := hend
  have hn' : s.AdmitsInt p u.heap n := hn.imp_right .inr
  exact (h.push hu (.int n hn')).imp fun _ _ hw => hw.1

omit h in
/-- Reading a byte of the input leaves the output as it is. -/
theorem readByte (ht : Quiet p K s t) :
    Ends Stdio.readByte t (fun n u => IsSmall n ∧ Quiet p K s u)
      (Stopped p K s F) := by
  have hadvance : Quiet p K s { t with console := t.console.advance } :=
    ⟨ht.toChange.congr rfl rfl rfl, ht.output_eq⟩
  have hend : IsSmall (-1) := ⟨by decide, by decide⟩
  unfold Stdio.readByte
  apply Ends.modifyGet
  cases t.console.next? with
  | none => exact ⟨hend, ht⟩
  | some b => exact ⟨isSmall_byte b, hadvance⟩

theorem inputStream (r : MethodRef) :
    Ends (Stdio.inputStream r) s (fun _ u => Quiet p K s u)
      (Stopped p K s F) := by
  unfold Stdio.inputStream
  split
  · have havailable : Ends Stdio.available s
        (fun n u => u = s ∧ n = Int32.ofNat s.console.available)
        (Stopped p K s F) := ⟨rfl, rfl⟩
    refine havailable.bind ?_
    intro n u hend
    obtain ⟨rfl, hn⟩ := hend
    exact h.answer (.inr hn) h.quiet_self
  · refine (readByte h.quiet_self).bind ?_
    intro n t hend
    obtain ⟨hn, ht⟩ := hend
    exact h.answer (.inl (p.config.word.inRange_of_small hn)) ht
  · exact Ends.throw ⟨h.quiet_self, h.common _ trivial⟩

end Streams

/-! ## String buffers -/

section StringBuffers

variable (h : Ready p K statics s F)

include h

/-- The handle in an operand, which stays where it is. -/
theorem operandHandle (op : String) (depth : Nat) (ht : Quiet p K s t) :
    Ends (Stdio.operandHandle op depth) t
      (fun r u => u = t ∧ Origin p K s t.heap (.ref r) ∧
        depth < t.stack.operands.length)
      (Stopped p K s F) := by
  refine (h.peek depth ht).bind ?_
  intro v u hend
  obtain ⟨rfl, hv, hdepth⟩ := hend
  apply Ends.lift
  · intro r hr
    rw [← Value.asHandle_ok hr]
    exact ⟨rfl, hv, hdepth⟩
  · intro e he
    exact ⟨ht, h.common e (Value.asHandle_error he)⟩

/-- A new array with a text. -/
theorem allocateText (text : String) (ht : Quiet p K s t) :
    Ends (Store.onHeap (Strings.allocate text)) t
      (fun r u => Quiet p K s u ∧ Origin p K s u.heap (.ref r) ∧
        u.stack = t.stack ∧ t.heap.GrowsTo u.heap)
      (Stopped p K s F) := by
  have hkind : p.Allocates (.array .char) := trivial
  apply h.allocateWith ht hkind (ht.laid.allocateText_eq text)
  intro v hv heap harray
  obtain ⟨c, -, rfl⟩ := List.mem_map.1 (List.mem_toArray.1 hv)
  have hshorts : heap.HasShorts :=
    harray.imp fun _ hentry => ⟨hentry.1, .inl hentry.2⟩
  exact .int _ (.inr (.inl ⟨isShort_unit c, hshorts⟩))

variable (hslot : ∀ i n, F (.slotOutOfBounds i n))

include hslot

/-- The text of a string buffer. -/
theorem bufferText {buffer : UInt16} (ht : Quiet p K s t)
    (hbuffer : t.heap.Contains buffer) :
    Ends (Stdio.bufferText p.image buffer) t (fun _ u => u = t)
      (Stopped p K s F) := by
  apply Ends.read
  · intro text htext
    rfl
  · intro e he
    rcases bind_eq_error he with hload | ⟨v, hload, htext⟩
    · rcases Heap.load_error hload with ⟨hnot, -⟩ | ⟨entry, -, -, rfl⟩
      · exact absurd hbuffer hnot
      · exact ⟨ht, hslot _ _⟩
    · have hv := h.grounded ht (ht.origin_of_load hload)
      have hread : Strings.read t.heap p.image v = .error e := by
        cases v with
        | null | zero => cases htext
        | int | float | ref | const => exact htext
      exact ⟨ht, h.common e
        (Strings.read_error (h.sound_of_quiet ht) hv hread)⟩

/-- Giving a string buffer a new text. -/
theorem setText {buffer : UInt16} (text : String) (ht : Quiet p K s t)
    (hbuffer : Origin p K s t.heap (.ref buffer)) :
    Ends (Stdio.setText buffer text) t
      (fun _ u => Change p K (· ≠ statics) s u ∧ u.stack = t.stack)
      (Stopped p K s F) := by
  refine (h.allocateText text ht).bind ?_
  intro chars u hend
  obtain ⟨hu, hchars, hstack, hgrows⟩ := hend
  have hbuffer' := h.grounded hu (hbuffer.mono hgrows)
  refine (hu.storeSlot 0 (W := (· ≠ statics)) hbuffer'.1 hbuffer'.2 hchars
    fun _ _ _ => hslot _ _).imp ?_
  intro _ w hend
  obtain ⟨hw, hstack'⟩ := hend
  exact ⟨hw, hstack'.trans hstack⟩

theorem construct :
    Ends Stdio.construct s (fun _ u => Change p K (· ≠ statics) s u)
      (Stopped p K s F) := by
  refine (h.popHandle _ h.quiet_self).bind ?_
  intro buffer t hend
  obtain ⟨ht, hheap, hbuffer⟩ := hend
  rw [← hheap] at hbuffer
  have hbuffer' := h.grounded ht hbuffer
  exact (ht.storeSlot 0 hbuffer'.1 (W := (· ≠ statics)) hbuffer'.2 .null
    fun _ _ _ => hslot _ _).imp fun _ _ hu => hu.1

theorem constructFrom :
    Ends (Stdio.constructFrom p.image) s
      (fun _ u => Change p K (· ≠ statics) s u) (Stopped p K s F) := by
  refine (h.operandText _ .string 0 h.quiet_self).bind ?_
  intro text t hend
  obtain ⟨rfl, -⟩ := hend
  refine (h.operandHandle _ 1 h.quiet_self).bind ?_
  intro buffer t' hend
  obtain ⟨rfl, hbuffer, hdepth⟩ := hend
  refine (h.setText hslot text h.quiet_self hbuffer).bind ?_
  intro _ u hend
  obtain ⟨hu, hstack⟩ := hend
  have htwo : 2 ≤ u.stack.operands.length := by
    rw [hstack]
    exact hdepth
  exact (hu.popN_sure htwo).bind fun _ _ hw => Ends.pure hw

theorem append (argument : Stdio.Argument) :
    Ends (Stdio.append p.image argument) s
      (fun _ u => Change p K (· ≠ statics) s u) (Stopped p K s F) := by
  refine (h.operandText _ argument 0 h.quiet_self).bind ?_
  intro suffix t hend
  obtain ⟨rfl, hdepth⟩ := hend
  refine (h.operandHandle _ 1 h.quiet_self).bind ?_
  intro buffer t' hend
  obtain ⟨rfl, hbuffer, -⟩ := hend
  refine (h.bufferText hslot h.quiet_self
    (h.grounded h.quiet_self hbuffer).1).bind ?_
  intro text u hend
  obtain rfl := hend
  refine (h.setText hslot _ h.quiet_self hbuffer).bind ?_
  intro _ u' hend
  obtain ⟨hu, hstack⟩ := hend
  refine Ends.bind (hu.pop_sure ?_) ?_
  · rw [hstack]
    exact hdepth
  · exact fun _ _ hw => Ends.pure hw

theorem toText :
    Ends Stdio.toText s (fun _ u => Quiet p K s u) (Stopped p K s F) := by
  refine (h.operandHandle _ 0 h.quiet_self).bind ?_
  intro buffer t hend
  obtain ⟨rfl, hbuffer, -⟩ := hend
  have hcontains := (h.grounded h.quiet_self hbuffer).1
  have hreplace : ∀ {chars : UInt16} {u : Store δ}, Quiet p K t u →
      Origin p K t u.heap (.ref chars) →
      Ends (do let _ ← Store.pop; Store.push (.ref chars)) u
        (fun _ w => Quiet p K t w) (Stopped p K t F) := by
    intro chars u hu hchars
    refine (h.pop hu).bind ?_
    intro v w hend
    obtain ⟨hw, hheap, -⟩ := hend
    rw [← hheap] at hchars
    exact (h.push hw hchars).imp fun _ _ hw' => hw'.1
  have hfresh : Ends (do
        let chars ← Store.onHeap (Strings.allocate "")
        let _ ← Store.pop
        Store.push (.ref chars)) t
      (fun _ w => Quiet p K t w) (Stopped p K t F) := by
    refine (h.allocateText "" h.quiet_self).bind ?_
    intro chars u hend
    obtain ⟨hu, hchars, -⟩ := hend
    exact hreplace hu hchars
  refine (h.quiet_self.loadSlot 0 hcontains fun _ _ _ => hslot _ _).bind ?_
  intro v u hend
  obtain ⟨rfl, -, hv⟩ := hend
  cases v with
  | ref chars => exact hreplace h.quiet_self hv
  | null | zero | int | float | const => exact hfresh

/-- The methods of the string buffer. -/
theorem stringBuffer (r : MethodRef) :
    Ends (Stdio.stringBuffer p.image r) s
      (fun _ u => Change p K (· ≠ statics) s u) (Stopped p K s F) := by
  unfold Stdio.stringBuffer
  split
  · exact h.construct hslot
  · exact h.constructFrom hslot
  · exact h.append hslot _
  · exact h.append hslot _
  · exact h.append hslot _
  · exact (h.toText hslot).imp fun _ _ hu => hu.change
  · exact h.append hslot _
  · exact Ends.throw ⟨h.quiet_self, h.common _ trivial⟩

end StringBuffers

/-! ## Families and the bridge -/

section Families

variable (h : Ready p K statics s F)
variable (hslot : ∀ i n, F (.slotOutOfBounds i n))

include h

/-- The root class. -/
theorem invokeRoot (r : MethodRef) :
    Ends (Family.root.invoke p.image r) s (fun _ u => Quiet p K s u)
      (Stopped p K s F) := by
  unfold Family.root
  by_cases hr : r.methodId ≠ Native.constructorId
  · simp only [if_pos hr]
    exact Ends.throw ⟨h.quiet_self, h.common _ trivial⟩
  · simp only [if_neg hr]
    refine (h.pop h.quiet_self).bind ?_
    intro v u hend
    obtain ⟨hu, -⟩ := hend
    exact Ends.pure hu

include hslot

/-- The console family. -/
theorem invokeConsole (r : MethodRef) :
    Ends (Stdio.family.invoke p.image r) s
      (fun _ u => Change p K (· ≠ statics) s u) (Stopped p K s F) := by
  simp only [Stdio.family]
  split
  · exact h.printStream r
  · split
    · exact (h.inputStream r).imp fun _ _ hu => hu.change
    · split
      · exact h.stringBuffer hslot r
      · exact Ends.throw ⟨h.quiet_self, h.common _ trivial⟩

end Families

end Ready

end Store

namespace Bridge

variable {δ : Type} {p : Program} {K : Value → Prop} {statics : UInt16}
variable {s : Store δ} {F : Fault → Prop} {b : Bridge δ}

/-- A bridge without families besides the root class and the console. -/
def Standard (b : Bridge δ) : Prop :=
  ∀ entry ∈ b.chain, entry.2 = Family.root ∨ entry.2 = Stdio.family

/-- The bridge of a configuration is standard. -/
theorem forConfig_standard (config : Config) (log : Log) :
    Ends (forConfig config : Action Log (Bridge δ)) log
      (fun b _ => b.Standard) (fun _ _ => True) := by
  apply (forConfig_ends config log).mono
  · rintro b log' rfl entry hentry
    simp only [ofProfile, standardFamilies, List.mem_cons] at hentry
    rcases hentry with rfl | hconsole
    · exact .inl rfl
    · split at hconsole
      · rw [List.mem_singleton.1 hconsole]
        exact .inr rfl
      · cases hconsole
  · exact fun _ _ _ => trivial

/-- A family of a standard bridge. -/
theorem Standard.familyOf? (hb : b.Standard) {classId : UInt16}
    {family : Family δ} (h : b.familyOf? classId = some family) :
    family = Family.root ∨ family = Stdio.family := by
  unfold Bridge.familyOf? at h
  rw [Option.map_eq_some_iff] at h
  obtain ⟨entry, hentry, rfl⟩ := h
  exact hb entry (List.mem_of_find?_eq_some hentry)

/-- A native method of a standard bridge. -/
theorem Standard.invoke (hb : b.Standard) (h : s.Ready p K statics F)
    (hslot : ∀ i n, F (.slotOutOfBounds i n)) (r : MethodRef) :
    Ends (b.invoke p.image r) s
      (fun _ u => s.Change p K (· ≠ statics) u) (s.Stopped p K F) := by
  unfold Bridge.invoke
  cases hfamily : b.familyOf? r.classId with
  | none =>
    refine (Store.record_ends s _ _ _).bind ?_
    intro _ t hst
    exact Ends.throw
      ⟨(h.of_same hst).quiet_self.of_same hst, h.common _ trivial⟩
  | some family =>
    have hknown := hb.familyOf? hfamily
    refine (Store.record_ends s _ _ _).bind ?_
    intro _ t hst
    have hfail : ∀ e u, t.Stopped p K F e u → s.Stopped p K F e u :=
      fun _ _ hu => ⟨hu.1.of_same hst, hu.2⟩
    rcases hknown with rfl | rfl
    · exact ((h.of_same hst).invokeRoot r).mono
        (fun _ _ hu => (hu.change).of_same hst) hfail
    · exact ((h.of_same hst).invokeConsole hslot r).mono
        (fun _ _ hu => hu.of_same hst) hfail

/-- Making an instance of a native class. -/
theorem construct_ends (h : s.Ready p K statics F) (classId : UInt16) :
    Ends (construct classId) s (fun _ u => s.Quiet p K u)
      (s.Stopped p K F) := by
  unfold construct
  by_cases hclass : classId ≠ Native.stringBuffer
  · simp only [if_pos hclass]
    exact Ends.throw ⟨h.quiet_self, h.common _ trivial⟩
  · simp only [if_neg hclass]
    have hkind : p.Allocates .chunk := trivial
    unfold Heap.allocate
    refine (h.allocate false 1 h.quiet_self hkind fun _ _ => .null).bind ?_
    intro buffer t hend
    obtain ⟨ht, hbuffer, -⟩ := hend
    exact (h.push ht hbuffer).imp fun _ _ hu => hu.1

end Bridge

end SlotVm
