import SlotVm.Proofs.Stack
import SlotVm.Proofs.Store.Native

/-!
# Console input

A read call of the input stream takes one byte of the input before it looks
at its receiver.  It is therefore the number of read calls, those without a
result included, that says which byte comes next: the byte of a call without
a receiver is lost.

The lemmas do three things.

* Only a read call moves the input (`Spares source`, one statement for each
  function of the bridge).
* One event explains its result by the number of read calls before it
  (`run_explains`).
* A whole row of events follows by induction, and the bytes that were
  returned are read off the row (`Accounted`).
-/

namespace SlotVm

open SlotVm.Action

/-- The input side of a console. -/
def Console.source (c : Console) : Console := { c with output := "" }

namespace ConsoleInput

variable {δ α : Type}

/-! ## Rows of events -/

/-- What the embedding does with the operand stack and the bridge. -/
inductive Event where
  | push (v : Value)
  | pop
  | call (image : Image) (r : MethodRef)
  /-- An instance of a native class. -/
  | construct (classId : UInt16)

/-- Reads a byte. -/
def readRef : MethodRef := ⟨Native.inputStream, 2⟩

/-- Asks how many bytes there are. -/
def availableRef : MethodRef := ⟨Native.inputStream, 1⟩

/-- The event calls the method. -/
def Event.calls (r : MethodRef) : Event → Bool
  | call _ r' => r' = r
  | _ => false

def Event.run (b : Bridge δ) : Event → Action (Store δ) Unit
  | push v => Store.push v
  | pop => do
      let _ ← Store.pop
  | call image r => b.invoke image r
  | construct classId => Bridge.construct classId

/-- An event that has happened. -/
structure Record where
  event : Event
  /-- The operand stack before the event. -/
  stack : Stack
  /-- The value on top of the stack after the event, or its fault. -/
  result : Except Fault (Option Value)

/-- Runs events one after the other; a fault does not stop the row. -/
def record (b : Bridge δ) : List Event → Store δ → List Record
  | [], _ => []
  | event :: rest, s =>
      match event.run b s with
      | .ok _ t => ⟨event, s.stack, .ok t.stack.values.back?⟩ :: record b rest t
      | .error e t => ⟨event, s.stack, .error e⟩ :: record b rest t

/-- The number that a read call has returned. -/
def Record.read? (x : Record) : Option Int32 :=
  match x.result with
  | .ok (some (.int n)) => if x.event.calls readRef then some n else none
  | _ => none

/-- The numbers that the read calls of a row have returned. -/
def returned (trace : List Record) : List Int32 := trace.filterMap Record.read?

/-- All read calls of a row, with or without a result. -/
def readCalls (trace : List Record) : Nat :=
  trace.countP (·.event.calls readRef)

/-- The number for a byte of the input; `-1` behind the last one. -/
def byteAt (input : Array UInt8) (i : Nat) : Int32 :=
  match input[i]? with
  | some b => b.toUInt32.toInt32
  | none => -1

/-- The first `count` numbers of the input. -/
def stream (input : Array UInt8) (count : Nat) : List Int32 :=
  (input.toList.take count).map (·.toUInt32.toInt32) ++
    List.replicate (count - input.size) (-1)

/-! ## Only a read call moves the input -/

/-- The input side of the console. -/
def source (s : Store δ) : Console := s.console.source

theorem spares_onStack (a : Action Stack α) :
    Spares source (Store.onStack a : Action (Store δ) α) :=
  fun _ => Ends.onPart (Ends.intro (fun _ _ _ => rfl) fun _ _ _ => rfl)

theorem spares_onHeap (a : Action Heap α) :
    Spares source (Store.onHeap a : Action (Store δ) α) :=
  fun _ => Ends.onPart (Ends.intro (fun _ _ _ => rfl) fun _ _ _ => rfl)

theorem spares_print (text : String) :
    Spares source (Store.print text : Action (Store δ) Unit) :=
  Spares.modify fun _ => rfl

theorem spares_printStream (image : Image) (r : MethodRef) :
    Spares source (Stdio.printStream image r : Action (Store δ) Unit) := by
  unfold Stdio.printStream
  cases Stdio.printMethod? r.methodId with
  | none => exact Spares.throw _
  | some method =>
    obtain ⟨argument?, ending⟩ := method
    cases argument? with
    | none => exact (spares_onStack _).bind fun _ => spares_print _
    | some argument =>
      exact (Spares.read _).bind fun _ => (spares_onStack _).bind fun _ =>
        (spares_onStack _).bind fun _ => spares_print _

theorem spares_answer (n : Int32) :
    Spares source (Stdio.answer n : Action (Store δ) Unit) :=
  (spares_onStack _).bind fun _ =>
  spares_onStack _

/-- A method of the input stream that does not read. -/
theorem spares_inputStream {r : MethodRef} (hr : r.methodId.toNat ≠ 2) :
    Spares source (Stdio.inputStream r : Action (Store δ) Unit) := by
  have havailable : Spares source (Stdio.available : Action (Store δ) Int32) :=
    fun _ => rfl
  unfold Stdio.inputStream
  split
  · exact havailable.bind spares_answer
  · contradiction
  · exact Spares.throw _

theorem spares_operandHandle (op : String) (depth : Nat) :
    Spares source (Stdio.operandHandle op depth : Action (Store δ) UInt16) :=
  (Spares.read _).bind fun v =>
  Spares.lift (v.asHandle op)

theorem spares_setText (buffer : UInt16) (text : String) :
    Spares source (Stdio.setText buffer text : Action (Store δ) Unit) :=
  (spares_onHeap _).bind fun _ =>
  spares_onHeap _

theorem spares_append (image : Image) (argument : Stdio.Argument) :
    Spares source (Stdio.append image argument : Action (Store δ) Unit) :=
  (Spares.read _).bind fun _ =>
  (spares_operandHandle _ 1).bind fun _ =>
  (Spares.read _).bind fun _ =>
  (spares_setText _ _).bind fun _ =>
  (spares_onStack _).bind fun _ =>
  Spares.pure _

theorem spares_toText :
    Spares source (Stdio.toText : Action (Store δ) Unit) := by
  refine (spares_operandHandle _ 0).bind fun buffer => ?_
  refine (Spares.read _).bind fun held => ?_
  have hreplace : ∀ chars : UInt16, Spares source
      (do let _ ← Store.pop; Store.push (.ref chars) :
        Action (Store δ) Unit) :=
    fun _ => (spares_onStack _).bind fun _ => spares_onStack _
  cases held with
  | ref chars => exact hreplace chars
  | null | zero | int | float | const =>
    exact (spares_onHeap _).bind hreplace

theorem spares_stringBuffer (image : Image) (r : MethodRef) :
    Spares source (Stdio.stringBuffer image r : Action (Store δ) Unit) := by
  unfold Stdio.stringBuffer
  split
  · exact ((spares_onStack _).bind fun _ => Spares.lift _).bind fun _ =>
      spares_onHeap _
  · exact (Spares.read _).bind fun _ => (spares_operandHandle _ 1).bind fun _ =>
      (spares_setText _ _).bind fun _ => (spares_onStack _).bind fun _ =>
      Spares.pure _
  · exact spares_append image _
  · exact spares_append image _
  · exact spares_append image _
  · exact spares_toText
  · exact spares_append image _
  · exact Spares.throw _

theorem spares_root (image : Image) (r : MethodRef) :
    Spares source (Family.root.invoke image r : Action (Store δ) Unit) := by
  unfold Family.root
  by_cases hr : r.methodId ≠ Native.constructorId
  · simp only [if_pos hr]
    exact Spares.throw _
  · simp only [if_neg hr]
    exact (spares_onStack _).bind fun _ => Spares.pure _

theorem spares_console (image : Image) {r : MethodRef} (hr : r ≠ readRef) :
    Spares source (Stdio.family.invoke image r : Action (Store δ) Unit) := by
  simp only [Stdio.family]
  split
  · exact spares_printStream image r
  · split
    · rename_i hclass
      apply spares_inputStream
      intro hmethod
      apply hr
      cases r with
      | mk classId methodId =>
        simp only at hclass hmethod
        have htwo : methodId = 2 := UInt16.toNat_inj.1 hmethod
        rw [hclass, htwo]
        rfl
    · split
      · exact spares_stringBuffer image r
      · exact Spares.throw _

theorem spares_construct (classId : UInt16) :
    Spares source (Bridge.construct classId : Action (Store δ) Unit) := by
  unfold Bridge.construct
  by_cases hclass : classId ≠ Native.stringBuffer
  · simp only [if_pos hclass]
    exact Spares.throw _
  · simp only [if_neg hclass]
    exact (spares_onHeap _).bind fun _ => spares_onStack _

/-- A native call that does not read. -/
theorem spares_invoke {b : Bridge δ} (hb : b.Standard) (image : Image)
    {r : MethodRef} (hr : r ≠ readRef) : Spares source (b.invoke image r) := by
  intro s
  cases hfamily : b.familyOf? r.classId with
  | none =>
    obtain ⟨text, hinvoke⟩ := Bridge.invoke_of_none hfamily image s
    unfold Ends
    rw [hinvoke]
    rfl
  | some family =>
    obtain ⟨text, hinvoke⟩ := Bridge.invoke_of_some hfamily image s
    apply Ends.of_eq hinvoke
    rcases hb.familyOf? hfamily with rfl | rfl
    · exact spares_root image r _
    · exact spares_console image hr _

/-! ## The methods of the input stream -/

variable {input : Array UInt8} {calls : Nat} {s : Store δ} {b : Bridge δ}

/-- This many read calls have been made. -/
def At (input : Array UInt8) (calls : Nat) (s : Store δ) : Prop :=
  source s = { Console.ofBytes input with position := min calls input.size }

theorem pop_leaves (s : Stack) :
    Ends Stack.pop s
      (fun _ t => t.size + 1 = s.size ∧ t.limit = s.limit ∧ s.available ≠ 0)
      (fun _ _ => s.available = 0) := by
  unfold Ends Stack.pop Stack.available
  by_cases h : s.floor < s.values.size
  · rw [dif_pos h]
    refine ⟨?_, rfl, by omega⟩
    show s.values.pop.size + 1 = s.values.size
    rw [Array.size_pop]
    omega
  · rw [dif_neg h]
    show s.values.size - s.floor = 0
    omega

theorem push_leaves (v : Value) (s : Stack) :
    Ends (Stack.push v) s (fun _ t => t.values.back? = some v)
      (fun _ _ => s.limit ≤ s.size) := by
  unfold Ends Stack.push Stack.size
  by_cases h : s.values.size < s.limit
  · rw [if_pos h]
    exact Array.back?_push
  · rw [if_neg h]
    exact Nat.le_of_not_lt h

/-- An answer needs a receiver, and nothing else on a stack within its
limit. -/
theorem answer_ends (n : Int32) (s : Store δ) :
    Ends (Stdio.answer n) s
      (fun _ t => source t = source s ∧
        t.stack.values.back? = some (.int n) ∧ s.stack.available ≠ 0)
      (fun _ t => source t = source s ∧
        (s.stack.size ≤ s.stack.limit → s.stack.available = 0)) := by
  have hpop : Ends Store.pop s
      (fun _ t => source t = source s ∧ t.stack.size + 1 = s.stack.size ∧
        t.stack.limit = s.stack.limit ∧ s.stack.available ≠ 0)
      (fun _ t => source t = source s ∧
        (s.stack.size ≤ s.stack.limit → s.stack.available = 0)) := by
    unfold Store.pop
    apply Ends.onPart
    exact (pop_leaves s.stack).mono (fun _ _ ht => ⟨rfl, ht⟩)
      fun _ _ hnone => ⟨rfl, fun _ => hnone⟩
  refine hpop.bind ?_
  intro _ t hpopped
  obtain ⟨hsource, hsize, hlimit, havailable⟩ := hpopped
  unfold Store.push
  apply Ends.onPart
  apply (push_leaves (.int n) t.stack).mono
  · intro _ u htop
    exact ⟨hsource, htop, havailable⟩
  · intro _ u hfull
    refine ⟨hsource, ?_⟩
    intro hroom
    omega

theorem At.console_eq (h : At input calls s) :
    s.console.input = input ∧ s.console.position = min calls input.size ∧
      s.console.blockSize = none :=
  ⟨congrArg Console.input h, congrArg Console.position h,
    congrArg Console.blockSize h⟩

/-- The number behind the bytes that the read calls before have taken. -/
theorem readByte_ends (h : At input calls s) :
    Ends Stdio.readByte s
      (fun n t => n = byteAt input calls ∧ At input (calls + 1) t ∧
        t.stack = s.stack) (fun _ _ => False) := by
  obtain ⟨hinput, hposition, hblocks⟩ := h.console_eq
  have hnext : s.console.next? = input[calls]? := by
    unfold Console.next?
    rw [hinput, hposition]
    by_cases hlt : calls < input.size
    · rw [Nat.min_eq_left (Nat.le_of_lt hlt)]
    · rw [Array.getElem?_eq_none (by omega), Array.getElem?_eq_none (by omega)]
  unfold Stdio.readByte
  apply Ends.modifyGet
  rw [hnext]
  unfold byteAt
  cases hbyte : input[calls]? with
  | none =>
    have hend := Array.getElem?_eq_none_iff.1 hbyte
    have hmin : min (calls + 1) input.size = min calls input.size := by omega
    refine ⟨rfl, ?_, rfl⟩
    rw [At, hmin]
    exact h
  | some byte =>
    have hmin : min (min calls input.size + 1) input.size =
        min (calls + 1) input.size := by omega
    refine ⟨rfl, ?_, rfl⟩
    unfold At source Console.source Console.advance Console.ofBytes
    simp only [hinput, hposition, hblocks, hmin]

/-- A read call takes a byte, with or without a result. -/
theorem read_ends (h : At input calls s)
    (hb : b.familyOf? readRef.classId = some Stdio.family) (image : Image) :
    Ends (b.invoke image readRef) s
      (fun _ t => At input (calls + 1) t ∧
        t.stack.values.back? = some (.int (byteAt input calls)) ∧
        s.stack.available ≠ 0)
      (fun _ t => At input (calls + 1) t ∧
        (s.stack.size ≤ s.stack.limit → s.stack.available = 0)) := by
  obtain ⟨text, hinvoke⟩ := Bridge.invoke_of_some hb image s
  apply Ends.of_eq hinvoke
  show Ends (Stdio.readByte >>= Stdio.answer) _ _ _
  have hlogged : At input calls (Bridge.logged s .debug text) := h
  refine ((readByte_ends hlogged).imp_fail fun _ _ => False.elim).bind ?_
  intro n t hread
  obtain ⟨rfl, ht, hstack⟩ := hread
  have hsame : t.stack = s.stack := hstack
  rw [← hsame]
  apply (answer_ends _ t).mono
  · intro _ u hu
    exact ⟨hu.1.trans ht, hu.2⟩
  · intro _ u hu
    exact ⟨hu.1.trans ht, hu.2⟩

/-- The bytes that no read call has taken. -/
theorem available_ends (h : At input calls s)
    (hb : b.familyOf? availableRef.classId = some Stdio.family)
    (image : Image) :
    Ends (b.invoke image availableRef) s
      (fun _ t => At input calls t ∧ t.stack.values.back? =
        some (.int (Int32.ofNat (input.size - calls))))
      (fun _ t => At input calls t) := by
  obtain ⟨text, hinvoke⟩ := Bridge.invoke_of_some hb image s
  apply Ends.of_eq hinvoke
  show Ends (Stdio.available >>= Stdio.answer) _ _ _
  obtain ⟨hinput, hposition, hblocks⟩ := h.console_eq
  have hrest : s.console.available = input.size - calls := by
    unfold Console.available Console.rest
    rw [hblocks, hinput, hposition]
    show input.size - min calls input.size = input.size - calls
    omega
  refine Ends.bind_ok rfl ?_
  show Ends (Stdio.answer (Int32.ofNat s.console.available)) _ _ _
  rw [hrest]
  apply (answer_ends _ _).mono
  · intro _ u hu
    exact ⟨hu.1.trans h, hu.2.1⟩
  · intro _ u hu
    exact hu.1.trans h

/-! ## One event -/

/-- The result of an event, explained by the number of read calls before it.
The last field is about a bridge that has the console. -/
structure Explains (input : Array UInt8) (console : Bool) (calls : Nat)
    (x : Record) : Prop where
  read : x.event.calls readRef = true →
    ∀ top, x.result = .ok top → top = some (.int (byteAt input calls))
  available : x.event.calls availableRef = true →
    ∀ top, x.result = .ok top →
      top = some (.int (Int32.ofNat (input.size - calls)))
  fails_iff : console = true → x.event.calls readRef = true →
    x.stack.size ≤ x.stack.limit →
      ((∃ e, x.result = .error e) ↔ x.stack.available = 0)

/-- The read calls that an event makes. -/
def Event.reads (event : Event) : Nat := if event.calls readRef then 1 else 0

/-- An event that is no call of the input stream has nothing to explain. -/
theorem explains_other {console : Bool} {x : Record}
    (hread : x.event.calls readRef = false)
    (havailable : x.event.calls availableRef = false) :
    Explains input console calls x := by
  constructor <;> simp [hread, havailable]

/-- An event that leaves the input alone. -/
theorem spared_explains {event : Event} (h : At input calls s)
    (hspares : Spares source (event.run b))
    (hread : event.calls readRef = false)
    (havailable : event.calls availableRef = false) :
    Ends (event.run b) s
      (fun _ t => At input (calls + event.reads) t ∧ Explains input true calls
        ⟨event, s.stack, .ok t.stack.values.back?⟩)
      (fun e t => At input (calls + event.reads) t ∧ Explains input true calls
        ⟨event, s.stack, .error e⟩) := by
  have hreads : calls + event.reads = calls := by
    simp [Event.reads, hread]
  rw [hreads]
  apply (hspares s).mono
  · intro _ t ht
    exact ⟨ht.trans h, explains_other hread havailable⟩
  · intro e t ht
    exact ⟨ht.trans h, explains_other hread havailable⟩

/-- What an event leaves on a bridge with the console. -/
theorem run_explains (hb : b.Standard)
    (hconsole : b.familyOf? Native.inputStream = some Stdio.family)
    (h : At input calls s) (event : Event) :
    Ends (event.run b) s
      (fun _ t => At input (calls + event.reads) t ∧ Explains input true calls
        ⟨event, s.stack, .ok t.stack.values.back?⟩)
      (fun e t => At input (calls + event.reads) t ∧ Explains input true calls
        ⟨event, s.stack, .error e⟩) := by
  cases event with
  | push v => exact spared_explains h (spares_onStack _) rfl rfl
  | pop =>
    exact spared_explains h ((spares_onStack _).bind fun _ => Spares.pure _)
      rfl rfl
  | construct classId => exact spared_explains h (spares_construct _) rfl rfl
  | call image r =>
    by_cases hread : r = readRef
    · rw [hread]
      apply (read_ends h hconsole image).mono
      · intro _ t ht
        obtain ⟨hat, htop, havailable⟩ := ht
        refine ⟨hat, ?_, ?_, ?_⟩
        · intro _ top hresult
          cases hresult
          exact htop
        · intro hother
          cases hother
        · intro _ _ _
          simpa using havailable
      · intro e t ht
        obtain ⟨hat, hempty⟩ := ht
        refine ⟨hat, ?_, ?_, ?_⟩
        · intro _ top hresult
          cases hresult
        · intro hother
          cases hother
        · intro _ _ hroom
          simpa using hempty hroom
    · by_cases havailable : r = availableRef
      · rw [havailable]
        apply (available_ends h hconsole image).mono
        · intro _ t ht
          obtain ⟨hat, htop⟩ := ht
          refine ⟨hat, ?_, ?_, ?_⟩
          · intro hother
            cases hother
          · intro _ top hresult
            cases hresult
            exact htop
          · intro _ hother
            cases hother
        · intro e t hat
          refine ⟨hat, ?_, ?_, ?_⟩
          · intro hother
            cases hother
          · intro _ top hresult
            cases hresult
          · intro _ hother
            cases hother
      · exact spared_explains h (spares_invoke hb image hread)
          (by simp [Event.calls, hread]) (by simp [Event.calls, havailable])

/-- On a bridge without the console the input stream has no results. -/
theorem run_fails (hnone : b.familyOf? Native.inputStream = none)
    {event : Event} (hevent : event.calls readRef = true ∨
      event.calls availableRef = true) (s : Store δ) :
    ∃ t, event.run b s = .error (.unknownNativeClass Native.inputStream) t := by
  have hcall : ∃ image r, event = .call image r ∧
      r.classId = Native.inputStream := by
    cases event with
    | call image r =>
      refine ⟨image, r, rfl, ?_⟩
      simp only [Event.calls, decide_eq_true_eq] at hevent
      rcases hevent with rfl | rfl
      · rfl
      · rfl
    | push | pop | construct => simp [Event.calls] at hevent
  obtain ⟨image, r, rfl, hr⟩ := hcall
  rw [← hr] at hnone
  obtain ⟨text, hinvoke⟩ := Bridge.invoke_of_none hnone image s
  rw [hr] at hinvoke
  exact ⟨_, hinvoke⟩

/-! ## Rows -/

/-- Every event of a row is explained by the read calls before it. -/
inductive Explained (input : Array UInt8) (console : Bool) :
    Nat → List Record → Prop
  | nil (calls : Nat) : Explained input console calls []
  | cons {calls : Nat} {x : Record} {rest : List Record}
      (h : Explains input console calls x)
      (hrest : Explained input console (calls + x.event.reads) rest) :
      Explained input console calls (x :: rest)

/-- The induction over a row on a bridge with the console.  The number of
read calls is what the input has lost. -/
theorem record_explained (hb : b.Standard)
    (hconsole : b.familyOf? Native.inputStream = some Stdio.family)
    (h : At input calls s) (events : List Event) :
    Explained input true calls (record b events s) := by
  induction events generalizing calls s with
  | nil => exact .nil calls
  | cons event rest ih =>
    have hends := run_explains hb hconsole h event
    unfold record
    cases hrun : event.run b s with
    | ok _ t =>
      obtain ⟨hat, hexplains⟩ := hends.of_ok hrun
      exact .cons hexplains (ih hat)
    | error e t =>
      obtain ⟨hat, hexplains⟩ := hends.of_error hrun
      exact .cons hexplains (ih hat)

/-- The same without the console, where nothing is returned. -/
theorem record_refused (hnone : b.familyOf? Native.inputStream = none)
    (events : List Event) (s : Store δ) :
    Explained input false calls (record b events s) := by
  induction events generalizing calls s with
  | nil => exact .nil calls
  | cons event rest ih =>
    unfold record
    cases hrun : event.run b s with
    | ok _ t =>
      have hother : ¬ (event.calls readRef = true ∨
          event.calls availableRef = true) := by
        intro hevent
        obtain ⟨u, hfails⟩ := run_fails hnone hevent s
        rw [hrun] at hfails
        cases hfails
      simp only [not_or, Bool.not_eq_true] at hother
      exact .cons (explains_other hother.1 hother.2) (ih t)
    | error e t =>
      refine .cons ⟨?_, ?_, ?_⟩ (ih t)
      · intro _ top hresult
        cases hresult
      · intro _ top hresult
        cases hresult
      · intro hother
        cases hother

/-! ## What is read off a row -/

variable {console : Bool} {trace before after : List Record} {x : Record}

theorem readCalls_cons (x : Record) (rest : List Record) :
    readCalls (x :: rest) = x.event.reads + readCalls rest := by
  simp only [readCalls, List.countP_cons, Event.reads]
  omega

theorem Explained.middle (h : Explained input console calls trace)
    (htrace : trace = before ++ x :: after) :
    Explains input console (calls + readCalls before) x := by
  induction before generalizing calls trace with
  | nil =>
    rw [htrace] at h
    cases h with
    | cons hx _ => exact hx
  | cons first before ih =>
    rw [htrace] at h
    cases h with
    | cons _ hrest =>
      rw [readCalls_cons, ← Nat.add_assoc]
      exact ih hrest rfl

/-- The number that an explained event has returned, if it has read. -/
theorem Explains.read?_eq (h : Explains input console calls x) :
    x.read? = none ∨
      x.event.calls readRef = true ∧ x.read? = some (byteAt input calls) := by
  unfold Record.read?
  cases hread : x.event.calls readRef with
  | false =>
    left
    split <;> simp
  | true =>
    cases hresult : x.result with
    | error e => exact .inl rfl
    | ok top =>
      rw [h.read hread top hresult]
      exact .inr ⟨rfl, rfl⟩

theorem Explains.read?_of_ok (h : Explains input console calls x)
    (hread : x.event.calls readRef = true)
    (hok : ∃ top, x.result = .ok top) :
    x.read? = some (byteAt input calls) := by
  obtain ⟨top, hresult⟩ := hok
  unfold Record.read?
  rw [hresult, h.read hread top hresult]
  simp [hread]

/-- The numbers are returned in the order of the input, and none of them
twice. -/
theorem Explained.returned_sublist (h : Explained input console calls trace) :
    (returned trace).Sublist
      ((List.range' calls (readCalls trace)).map (byteAt input)) := by
  induction h with
  | nil calls => exact List.Sublist.refl _
  | cons hx _ ih =>
    rw [readCalls_cons, returned, List.filterMap_cons]
    rename_i calls x rest _
    rcases hx.read?_eq with hnone | ⟨hread, hsome⟩
    · rw [hnone]
      refine ih.trans (List.Sublist.map _ ?_)
      unfold Event.reads
      split
      · rw [Nat.add_comm 1, List.range'_succ]
        exact List.sublist_cons_self _ _
      · rw [Nat.zero_add]
        exact List.Sublist.refl _
    · have hone : x.event.reads = 1 := by simp [Event.reads, hread]
      rw [hone] at ih
      rw [hsome, hone, Nat.add_comm 1, List.range'_succ]
      exact ih.cons_cons _

/-- All numbers are returned if no read call fails. -/
theorem Explained.length_returned (h : Explained input console calls trace)
    (hok : ∀ x ∈ trace, x.event.calls readRef = true →
      ∃ top, x.result = .ok top) :
    (returned trace).length = readCalls trace := by
  induction h with
  | nil calls => rfl
  | cons hx _ ih =>
    rename_i calls x rest _
    have hrest := ih fun y hy => hok y (List.mem_cons_of_mem _ hy)
    rw [readCalls_cons, returned, List.filterMap_cons]
    cases hread : x.event.calls readRef with
    | true =>
      have hone : x.event.reads = 1 := by simp [Event.reads, hread]
      rw [hx.read?_of_ok hread (hok x List.mem_cons_self hread), hone,
        ← hrest, Nat.add_comm]
      rfl
    | false =>
      have hzero : x.event.reads = 0 := by simp [Event.reads, hread]
      rcases hx.read?_eq with hnone | ⟨hread', -⟩
      · rw [hnone, hzero, ← hrest, Nat.zero_add]
        rfl
      · rw [hread] at hread'
        cases hread'

theorem map_byteAt_range (input : Array UInt8) (count : Nat) :
    (List.range' 0 count).map (byteAt input) = stream input count := by
  apply List.ext_getElem
  · simp [stream]
    omega
  · intro i hi hi'
    have hcount : i < count := by simpa using hi
    by_cases hlt : i < input.size
    · have hbyte : byteAt input i = input[i].toUInt32.toInt32 := by
        simp [byteAt, hlt]
      have hmin : i < min count input.size := by omega
      simp [stream, hmin, hbyte]
    · have hbyte : byteAt input i = -1 := by
        simp [byteAt, hlt]
      have hmin : ¬ i < min count input.size := by omega
      simp [stream, List.getElem_append, hmin, hbyte]

/-- What a row of events tells about the input.  `console` says that the
bridge has the console. -/
structure Accounted (input : Array UInt8) (console : Bool)
    (trace : List Record) : Prop where
  /-- A read call returns the byte behind those of all read calls before it,
  and `-1` once there have been as many as bytes. -/
  read : ∀ {before x after top}, trace = before ++ x :: after →
    x.event.calls readRef = true → x.result = .ok top →
      top = some (.int (byteAt input (readCalls before)))
  /-- The bytes that are available are those that no read call has taken. -/
  available : ∀ {before x after top}, trace = before ++ x :: after →
    x.event.calls availableRef = true → x.result = .ok top →
      top = some (.int (Int32.ofNat (input.size - readCalls before)))
  /-- A read call fails for want of a receiver only. -/
  fails_iff : console = true → ∀ x ∈ trace,
    x.event.calls readRef = true → x.stack.size ≤ x.stack.limit →
      ((∃ e, x.result = .error e) ↔ x.stack.available = 0)
  /-- No byte is returned twice, and none before an earlier one. -/
  sublist : (returned trace).Sublist (stream input (readCalls trace))
  /-- No byte is lost if no read call fails. -/
  complete : (∀ x ∈ trace, x.event.calls readRef = true →
      ∃ top, x.result = .ok top) →
    returned trace = stream input (readCalls trace)

theorem Explained.accounted (h : Explained input console 0 trace) :
    Accounted input console trace where
  read htrace hread hresult := by
    have hx := h.middle htrace
    rw [Nat.zero_add] at hx
    exact hx.read hread _ hresult
  available htrace havailable hresult := by
    have hx := h.middle htrace
    rw [Nat.zero_add] at hx
    exact hx.available havailable _ hresult
  fails_iff hconsole x hx := by
    obtain ⟨before, after, htrace⟩ := List.append_of_mem hx
    exact (h.middle htrace).fails_iff hconsole
  sublist := by
    rw [← map_byteAt_range]
    exact h.returned_sublist
  complete hok := by
    rw [← map_byteAt_range]
    apply h.returned_sublist.eq_of_length
    rw [h.length_returned hok]
    simp

/-- **Every read call takes one byte of the input.**  This holds for any row
of pushes, pops and native calls through the bridge of a configuration, with
or without results. -/
theorem record_accounted {config : Config} {log log' : Log}
    (hb : Bridge.forConfig config log = .ok b log')
    (hinput : s.console = .ofBytes input) (events : List Event) :
    Accounted input config.families.stdio (record b events s) := by
  have hstandard := (Bridge.forConfig_standard config log).of_ok hb
  have hprofile := (Bridge.forConfig_ends config log).of_ok hb
  have hat : At input 0 s := by
    unfold At source
    rw [hinput, Nat.zero_min]
    rfl
  cases hstdio : config.families.stdio with
  | true =>
    have hconsole : b.familyOf? Native.inputStream = some Stdio.family := by
      rw [hprofile, Bridge.ofProfile, Bridge.standardFamilies, hstdio]
      rfl
    exact (record_explained hstandard hconsole hat events).accounted
  | false =>
    have hnone : b.familyOf? Native.inputStream = none := by
      rw [hprofile, Bridge.ofProfile, Bridge.standardFamilies, hstdio]
      rfl
    exact (record_refused hnone events s).accounted

/-- A store with two bytes of input. -/
def twoBytes : Store Unit :=
  ⟨.empty 4, .empty 16 4, .ofBytes #[65, 66], .empty .off, ()⟩

/-- An image without code. -/
def noCode : Image := ⟨[], #[], #[], #[], 0, ⟨0, 0⟩⟩

/-- A read call without a receiver, and three calls with one. -/
def fourCalls : List Event :=
  [.call noCode readRef, .push .zero, .call noCode availableRef,
    .call noCode readRef, .call noCode readRef]

theorem record_accounted_lost :
    (∃ log, Bridge.forConfig Config.unix (.empty .off) =
        .ok (Bridge.ofProfile Config.unix.families : Bridge Unit) log) ∧
      Accounted #[65, 66] true
        (record (Bridge.ofProfile Config.unix.families) fourCalls twoBytes) ∧
      (record (Bridge.ofProfile Config.unix.families) fourCalls twoBytes).map
          Record.result =
        [.error .stackUnderflow, .ok (some .zero), .ok (some (.int 1)),
          .ok (some (.int 66)), .ok (some (.int (-1)))] ∧
      returned (record (Bridge.ofProfile Config.unix.families) fourCalls
        twoBytes) = [66, -1] := by
  have hconfig : ∃ log, Bridge.forConfig Config.unix (.empty .off) =
      .ok (Bridge.ofProfile Config.unix.families : Bridge Unit) log :=
    ⟨_, rfl⟩
  obtain ⟨log, hlog⟩ := hconfig
  exact ⟨⟨log, hlog⟩, record_accounted hlog rfl fourCalls, rfl, rfl⟩

end ConsoleInput

end SlotVm
