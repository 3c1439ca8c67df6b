import SlotVm.Machine.Execute
import SlotVm.Proofs.Machine.Call

/-!
# Every operation has one of the effects

`Turn.execute` is the statement that all theorems about runs rest on.  It
goes through the operand shapes; the work is done by the statements about
the store, about local variables here, and about calls and returns.
-/

namespace SlotVm

/-! ## Local variables -/

namespace Frame

variable {f f' : Frame} {i : Nat} {v : Value} {e : Fault}

theorem getLocal_ok (h : f.getLocal i = .ok v) : f.Holds v := by
  unfold getLocal at h
  split at h
  · rename_i w hw
    cases h
    exact Array.mem_of_getElem? hw
  · cases h

theorem getLocal_error (h : f.getLocal i = .error e) : e.Common := by
  unfold getLocal at h
  split at h
  · cases h
  · cases h
    trivial

/-- A new value of a local variable leaves the rest of the frame. -/
theorem setLocal_ok (h : f.setLocal i v = .ok f') :
    f'.method = f.method ∧ f'.base = f.base ∧ f'.pc = f.pc ∧
      f'.locals.size = f.locals.size ∧
      ∀ w ∈ f'.locals, f.Holds w ∨ w = v := by
  unfold setLocal at h
  split at h
  · cases h
    refine ⟨rfl, rfl, rfl, Array.size_setIfInBounds, ?_⟩
    intro w hw
    exact Array.mem_or_eq_of_mem_setIfInBounds hw
  · cases h

theorem setLocal_error (h : f.setLocal i v = .error e) : e.Common := by
  unfold setLocal at h
  split at h
  · cases h
  · cases h
    trivial

/-- Adding to a local variable writes an integer into it. -/
theorem increment_ok {op : String} {g : Int32 → Int32}
    (h : (do
      let v ← f.getLocal i
      let n ← v.asInt op
      f.setLocal i (.int (g n))) = .ok f') :
    ∃ n, f.setLocal i (.int (g n)) = .ok f' := by
  obtain ⟨v, -, h⟩ := bind_eq_ok h
  obtain ⟨n, -, h⟩ := bind_eq_ok h
  exact ⟨n, h⟩

theorem increment_error {op : String} {g : Int32 → Int32}
    (h : (do
      let v ← f.getLocal i
      let n ← v.asInt op
      f.setLocal i (.int (g n))) = .error e) : e.Common := by
  rcases bind_eq_error h with hv | ⟨v, -, h⟩
  · exact getLocal_error hv
  · rcases bind_eq_error h with hn | ⟨n, -, h⟩
    · exact Value.asInt_error hn
    · exact setLocal_error h

end Frame

namespace Machine

open SlotVm.Action Store

variable {δ : Type} {p : Program} {o : Operation} {m : Machine δ}
variable {f f' : Frame} {callers : List Frame} {t : Store δ}

/-- A position that a switch leads to. -/
theorem leads_tableTarget (fallback : Nat) (low : Int32) (targets : List Nat)
    (key : Int32) : (Operation.tableSwitch fallback low targets).Leads
      (tableTarget fallback low targets key) := by
  unfold tableTarget Operation.Leads
  simp only
  split
  · rw [List.getD_eq_getElem?_getD]
    cases htarget : targets[(key.toInt - low.toInt).toNat]? with
    | none => exact .inl rfl
    | some target => exact .inr (List.mem_of_getElem? htarget)
  · exact .inl rfl

theorem leads_lookupTarget (fallback : Nat) (pairs : List (Int32 × Nat))
    (key : Int32) : (Operation.lookupSwitch fallback pairs).Leads
      (lookupTarget fallback pairs key) := by
  unfold lookupTarget Operation.Leads
  cases htarget : pairs.lookup key with
  | none => exact .inl rfl
  | some target =>
    obtain ⟨pre, post, rfl, -⟩ := List.lookup_eq_some_iff.1 htarget
    exact .inr ⟨(key, target), by simp, rfl⟩

namespace Turn

variable (h : Turn p f callers m) (ho : o.opcode.isReturn = false)

/-- A new value of a local variable of the current call. -/
theorem effect_setLocal (ho : o.opcode.isReturn = false) {i : Nat} {v : Value}
    (ht : Quiet p f.Holds m.store t) (hv : Origin p f.Holds m.store t.heap v)
    (hset : f.setLocal i v = .ok f') :
    Effect p o f callers m .running
      { m with store := t, frames := f' :: callers } := by
  obtain ⟨hmethod, hbase, hpc, hsize, hlocals⟩ := Frame.setLocal_ok hset
  apply effect_stays ho ht.change hmethod hbase hsize (.inl hpc)
  intro w hw
  rcases hlocals w hw with hold | rfl
  · exact .known hold
  · exact hv

include h ho

/-- Pushing a local variable. -/
theorem loadLocal (i : Nat) :
    Ends (Machine.loadLocal i) m (fun _ => Effect p o f callers m .running)
      (Halts p o f m) := by
  have hready := h.ready ho
  refine Ends.bind_ok (frame_eq h.frames_eq) ?_
  have hget : Ends (Action.lift (f.getLocal i)) m
      (fun v u => u = m ∧ f.Holds v) (Halts p o f m) := by
    apply Ends.lift
    · exact fun v hv => ⟨rfl, Frame.getLocal_ok hv⟩
    · intro e he
      exact halts_of_stopped
        ⟨hready.quiet_self, hready.common e (Frame.getLocal_error he)⟩
  refine hget.bind ?_
  intro v u hend
  obtain ⟨rfl, hv⟩ := hend
  exact h.effect_onStore ho ((hready.push hready.quiet_self (.known hv)).imp
    fun _ _ ht => ht.1.change)

/-- Taking a value into a local variable. -/
theorem storeLocal (i : Nat) :
    Ends (Machine.storeLocal i) m (fun _ => Effect p o f callers m .running)
      (Halts p o f m) := by
  have hready := h.ready ho
  refine (onStore (hready.pop hready.quiet_self)).bind ?_
  intro v u hend
  obtain ⟨t, rfl, ht, hheap, hv, -⟩ := hend
  rw [← hheap] at hv
  have hframes : ({ m with store := t } : Machine δ).frames = f :: callers :=
    h.frames_eq
  apply (updateFrame_ends hframes).mono
  · intro _ w hend
    obtain ⟨f', hset, rfl⟩ := hend
    exact effect_setLocal ho ht hv hset
  · intro e w hend
    obtain ⟨he, rfl⟩ := hend
    exact halts_of_stopped ⟨ht, hready.common e (Frame.setLocal_error he)⟩

/-- Adding to a local variable. -/
theorem incrementLocal (i : Nat) (delta : Int32) :
    Ends (Machine.incrementLocal p.config.word i delta) m
      (fun _ => Effect p o f callers m .running) (Halts p o f m) := by
  have hready := h.ready ho
  apply (updateFrame_ends h.frames_eq).mono
  · intro _ u hend
    obtain ⟨f', hset, rfl⟩ := hend
    obtain ⟨n, hset⟩ := Frame.increment_ok hset
    exact effect_setLocal ho hready.quiet_self (.wrapped _) hset
  · intro e u hend
    obtain ⟨he, rfl⟩ := hend
    exact halts_of_stopped
      ⟨hready.quiet_self, hready.common e (Frame.increment_error he)⟩

omit ho

/-! ## The operand shapes -/

/-- Instructions without operand. -/
theorem executePlain (op : PlainOp)
    (hfloat : (Opcode.plain op).feature? = some .float →
      p.config.features.float = true) :
    Ends (Machine.executePlain p.config.word op) m (Effect p (.plain op) f callers m)
      (Halts p (.plain op) f m) := by
  cases op with
  | load tag slot => exact proceed_ends (h.loadLocal rfl slot.val)
  | store tag slot => exact proceed_ends (h.storeLocal rfl slot.val)
  | returnValue tag =>
    refine h.popReturned.bind ?_
    intro v u hend
    obtain ⟨stack, rfl, hstack, hoperands⟩ := hend
    exact h.returnFrom rfl rfl hstack hoperands
  | returnVoid =>
    have hquiet : Quiet p f.Holds m.store m.store :=
      .refl h.founded.sound.bounded h.founded.sound.laid
    exact h.returnFrom rfl rfl hquiet.takes_self (List.append_nil _).symm
  | _ =>
    exact proceed_ends (h.effect_onStore rfl
      (Ready.executeData (h.ready rfl) _ hfloat))

/-- Instructions with a byte. -/
theorem executeByte (op : ByteOp) (operand : UInt8) :
    Ends (Machine.executeByte p op operand) m
      (fun _ => Effect p (.byteOperand op operand) f callers m .running)
      (Halts p (.byteOperand op operand) f m) := by
  have hready : Ready p f.Holds m.statics m.store
      (Operation.MayRaise p (.byteOperand op operand)) := h.ready rfl
  cases op with
  | loadConstant =>
    apply h.effect_onStore rfl
    apply (hready.loadConstant operand ?_).imp
    · exact fun _ _ ht => ht.change
    · exact fun hnone => ⟨operand, rfl, rfl, hnone⟩
  | load tag => exact h.loadLocal rfl operand.toNat
  | store tag => exact h.storeLocal rfl operand.toNat
  | newArray =>
    apply h.effect_onStore rfl
    apply (hready.newArrayOf operand ?_).imp
    · exact fun _ _ ht => ht.change
    · exact fun hnone => ⟨operand, rfl, hnone, rfl⟩

/-- Instructions with an index. -/
theorem executeIndex (op : IndexOp) (operand : UInt16) :
    Ends (Machine.executeIndex p op operand) m
      (fun _ => Effect p (.index op operand) f callers m .running)
      (Halts p (.index op operand) f m) := by
  have hready : Ready p f.Holds m.statics m.store
      (Operation.MayRaise p (.index op operand)) := h.ready rfl
  have hslot : ∀ i n, Operation.MayRaise p (.index op operand)
      (.slotOutOfBounds i n) := fun _ _ => rfl
  have hstatics := h.founded.sound.statics
  cases op with
  | getStatic =>
    refine Ends.bind_ok rfl ?_
    apply h.effect_onStore rfl
    exact (hready.pushSlot _ hready.quiet_self hstatics hslot).imp
      fun _ _ ht => ht.change
  | putStatic =>
    refine Ends.bind_ok rfl ?_
    apply h.effect_onStore rfl
    exact hready.popIntoSlot _ hstatics rfl hslot
  | getField =>
    apply h.effect_onStore rfl
    exact (hready.getField _ hslot).imp fun _ _ ht => ht.change
  | putField => exact h.effect_onStore rfl (hready.putField _ hslot)
  | invoke kind => exact h.invoke
  | new =>
    apply h.effect_onStore rfl
    apply (hready.newObjectOf operand ?_).imp
    · exact fun _ _ ht => ht.change
    · exact fun hnone => ⟨hnone, .inl rfl⟩
  | newRefArray =>
    apply h.effect_onStore rfl
    exact (hready.newArray .reference trivial).imp fun _ _ ht => ht.change

/-- Jumping to a position that a key selects. -/
theorem switch (hreturn : o.opcode.isReturn = false) (op : String)
    {target : Int32 → Nat} (hleads : ∀ key, o.Leads (target key)) :
    Ends (do
        let key ← Machine.onStore (Store.popInt op)
        Machine.jump (target key)) m
      (fun _ => Effect p o f callers m .running) (Halts p o f m) := by
  have hready := h.ready hreturn
  refine (onStore (hready.popInt op hready.quiet_self)).bind ?_
  intro key u hend
  obtain ⟨t, rfl, ht, -⟩ := hend
  exact h.jump hreturn ht (hleads key)

/-- Every operation has one of the effects, or stops at a fault that it can
raise. -/
theorem execute (o : Operation)
    (hfloat : o.opcode.feature? = some .float →
      p.config.features.float = true) :
    Ends (Machine.execute o) m (Effect p o f callers m) (Halts p o f m) := by
  refine Ends.bind_ok h.getProgram ?_
  cases o with
  | plain op => exact h.executePlain op hfloat
  | immediate op n =>
    have hready : Ready p f.Holds m.statics m.store
        (Operation.MayRaise p (.immediate op n)) := h.ready rfl
    apply proceed_ends
    apply h.effect_onStore rfl
    exact (hready.pushInt n hready.quiet_self).imp
      fun _ _ ht => ht.change
  | byteOperand op operand => exact proceed_ends (h.executeByte op operand)
  | index op operand => exact proceed_ends (h.executeIndex op operand)
  | branch op target =>
    have hready : Ready p f.Holds m.statics m.store
        (Operation.MayRaise p (.branch op target)) := h.ready rfl
    apply proceed_ends
    refine (onStore (hready.branchTaken op)).bind ?_
    intro taken w hend
    obtain ⟨t, rfl, ht⟩ := hend
    cases taken with
    | true => exact h.jump rfl ht rfl
    | false => exact Ends.pure (h.stays_store rfl ht.change)
  | increment slot delta =>
    exact proceed_ends (h.incrementLocal rfl slot.toNat delta.toInt32)
  | tableSwitch fallback low targets =>
    exact proceed_ends (h.switch rfl _ (leads_tableTarget fallback low targets))
  | lookupSwitch fallback pairs =>
    exact proceed_ends (h.switch rfl _ (leads_lookupTarget fallback pairs))

end Turn

end Machine

end SlotVm
