import SlotVm.Proofs.Machine.Invariant
import SlotVm.Proofs.References

/-!
# What the values of a machine have in common

A property of values holds of everything that a machine holds
(`Machine.HoldsOnly`) if it holds of everything that an instruction can make.
`Store.Makes` says the latter: numbers are made if the store admits them, and
nulls, zeros, handles and constants can be made at any time.  All other
values are copies of values that were there.

The lemmas follow the construction of a step: where a value comes from, what
a change of the store leaves, the three effects and the fault of an
operation, and the step as a whole.  The last section says what no part of a
run changes: the objects that are there, and the input of the console.
-/

namespace SlotVm

namespace Store

variable {δ : Type} {p : Program} {K : Value → Prop} {W : UInt16 → Prop}
variable {Q : Value → Prop} {s t : Store δ} {h : Heap} {v : Value}

/-- Every value satisfies `Q` that can be made by an instruction which starts
in `s` and comes to the heap `h`. -/
structure Makes (p : Program) (s : Store δ) (h : Heap) (Q : Value → Prop) :
    Prop where
  null : Q .null
  zero : Q .zero
  int : ∀ n, s.AdmitsInt p h n → Q (.int n)
  float : ∀ x, s.AdmitsFloats p → Q (.float x)
  ref : ∀ r, Q (.ref r)
  const : ∀ i, Q (.const i)

/-- The log has no part in it. -/
theorem Makes.of_same (hmakes : s.Makes p h Q) (hst : Same s t) :
    t.Makes p h Q where
  null := hmakes.null
  zero := hmakes.zero
  int := by
    unfold AdmitsInt
    rw [hst.console_eq]
    exact hmakes.int
  float := by
    unfold AdmitsFloats
    rw [hst.heap_eq]
    exact hmakes.float
  ref := hmakes.ref
  const := hmakes.const

section Changes

variable (hK : ∀ v, K v → Q v)
variable (hvalues : ∀ v ∈ s.stack.values, Q v)
variable (hslots : ∀ v ∈ s.heap.arena.slots, Q v)

include hK hvalues hslots

/-- A value that has been made or copied. -/
theorem Origin.satisfies (hmakes : s.Makes p h Q) (ho : Origin p K s h v) :
    Q v := by
  cases ho with
  | known hv => exact hK v hv
  | operand hv => exact hvalues v (s.stack.mem_values_iff.2 (.inr hv))
  | slot hv => exact hslots v hv
  | null => exact hmakes.null
  | zero => exact hmakes.zero
  | int n hn => exact hmakes.int n hn
  | float x hx => exact hmakes.float x hx
  | fresh => exact hmakes.ref _
  | pooled => exact hmakes.const _

/-- What is on the stack after a change. -/
theorem Change.values_satisfy (hc : Change p K W s t)
    (hmakes : s.Makes p t.heap Q) : ∀ v ∈ t.stack.values, Q v := by
  intro v hv
  rcases t.stack.mem_values_iff.1 hv with hbelow | hoperand
  · rw [hc.stack.below_eq] at hbelow
    exact hvalues v (s.stack.mem_values_iff.2 (.inl hbelow))
  · exact (hc.operands v hoperand).satisfies hK hvalues hslots hmakes

/-- What is in the heap after a change. -/
theorem Change.slots_satisfy (hc : Change p K W s t)
    (hmakes : s.Makes p t.heap Q) : ∀ v ∈ t.heap.arena.slots, Q v := by
  intro v hv
  obtain ⟨j, hj⟩ := Array.getElem?_of_mem hv
  rcases hc.slots j v hj with hold | ⟨ho, -⟩
  · exact hslots v (Array.mem_of_getElem? hold)
  · exact ho.satisfies hK hvalues hslots hmakes

end Changes

end Store

namespace Machine

open SlotVm.Action Store

variable {δ : Type} {p : Program} {Q : Value → Prop} {o : Operation}
variable {m m' : Machine δ} {f : Frame} {callers : List Frame} {flow : Flow}
variable {e : Fault} {v : Value}

/-- Every value that the machine holds satisfies `Q`. -/
structure HoldsOnly (Q : Value → Prop) (m : Machine δ) : Prop where
  values : ∀ v ∈ m.store.stack.values, Q v
  locals : ∀ f ∈ m.frames, ∀ v ∈ f.locals, Q v
  slots : ∀ v ∈ m.store.heap.arena.slots, Q v

theorem HoldsOnly.imp {Q' : Value → Prop} (h : m.HoldsOnly Q)
    (himp : ∀ v, Q v → Q' v) : m.HoldsOnly Q' where
  values v hv := himp v (h.values v hv)
  locals f hf v hv := himp v (h.locals f hf v hv)
  slots v hv := himp v (h.slots v hv)

theorem HoldsOnly.held (h : m.HoldsOnly Q) (hv : m.Held v) : Q v := by
  cases hv with
  | operand hv => exact h.values v hv
  | ofLocal hf hv => exact h.locals _ hf v hv
  | slot hv => exact h.slots v hv

theorem HoldsOnly.known (h : m.HoldsOnly Q) (hframes : m.frames = f :: callers)
    (v : Value) (hv : f.Holds v) : Q v :=
  h.locals f (by rw [hframes]; exact List.mem_cons_self) v hv

/-! ## Effects -/

theorem Stays.holdsOnly (h : Stays p o f callers m m')
    (hframes : m.frames = f :: callers)
    (hmakes : m.store.Makes p m'.store.heap Q) (hm : m.HoldsOnly Q) :
    m'.HoldsOnly Q where
  values := h.change.values_satisfy (hm.known hframes) hm.values hm.slots
    hmakes
  slots := h.change.slots_satisfy (hm.known hframes) hm.values hm.slots hmakes
  locals := by
    obtain ⟨f', hframes', -, -, -, -, horigin⟩ := h.frame
    rw [hframes']
    intro g hg v hv
    rcases List.mem_cons.1 hg with rfl | hg
    · exact (horigin v hv).satisfies (hm.known hframes) hm.values hm.slots
        hmakes
    · exact hm.locals g (by rw [hframes]; exact List.mem_cons_of_mem _ hg) v hv

/-- A call moves its arguments from the stack to the local variables. -/
theorem Calls.holdsOnly (h : Calls p o m m') (hnull : Q .null)
    (hm : m.HoldsOnly Q) : m'.HoldsOnly Q := by
  obtain ⟨index, method, args, -, -, -, hvalues, hframes⟩ := h.callee
  -- The old stack is the new one and the arguments together.
  have hmem : ∀ v, v ∈ m'.store.stack.values ∨ v ∈ args → Q v := by
    intro v hv
    apply hm.values
    rw [← Array.mem_toList_iff, hvalues, List.mem_append, Array.mem_toList_iff,
      Array.mem_toList_iff]
    exact hv
  constructor
  · exact fun v hv => hmem v (.inl hv)
  · rw [hframes]
    intro g hg v hv
    rcases List.mem_cons.1 hg with rfl | hg
    · rcases Array.mem_append.1 hv with harg | hfill
      · exact hmem v (.inr harg)
      · rw [(Array.mem_replicate.1 hfill).2]
        exact hnull
    · exact hm.locals g hg v hv
  · rw [h.heap_eq]
    exact hm.slots

theorem Returns.holdsOnly (h : Returns p o callers m flow m')
    (hframes : m.frames = f :: callers) (hm : m.HoldsOnly Q) :
    m'.HoldsOnly Q where
  values := by
    intro v hv
    rw [← Array.mem_toList_iff] at hv
    exact hm.values v (Array.mem_toList_iff.1 (h.values_sublist.subset hv))
  locals := by
    rw [h.frames_eq]
    intro g hg
    exact hm.locals g (by rw [hframes]; exact List.mem_cons_of_mem _ hg)
  slots := by
    rw [h.heap_eq]
    exact hm.slots

theorem Halts.holdsOnly (h : Halts p o f m e m')
    (hframes : m.frames = f :: callers)
    (hmakes : m.store.Makes p m'.store.heap Q) (hm : m.HoldsOnly Q) :
    m'.HoldsOnly Q where
  values := h.quiet.values_satisfy (hm.known hframes) hm.values hm.slots hmakes
  slots := h.quiet.slots_satisfy (hm.known hframes) hm.values hm.slots hmakes
  locals := by
    rw [h.frames_eq]
    exact hm.locals

/-- The value that ends a run was an operand. -/
theorem Returns.finished {value : Value}
    (h : Returns p o callers m (.finished (some value)) m') :
    value ∈ m.store.stack.values := by
  obtain ⟨value', residue, -, hoperands, -, -, hflow⟩ := h.returned
  split at hflow
  · cases hflow
    apply m.store.stack.mem_values_iff.2
    rw [hoperands]
    exact .inr (List.mem_append_right _ (List.mem_singleton.2 rfl))
  · cases hflow

/-! ## Steps -/

/-- Fetching an instruction does not change what is held. -/
theorem Poised.holdsOnly {i : Instruction} {n : Machine δ}
    (h : Poised p i f callers m n) (hm : m.HoldsOnly Q) : n.HoldsOnly Q where
  values := by
    rw [h.same.stack_eq]
    exact hm.values
  locals := by
    have hold := hm.locals
    rw [h.frames_eq] at hold
    rw [h.turn.frames_eq]
    intro g hg
    rcases List.mem_cons.1 hg with rfl | hg
    · exact hold f List.mem_cons_self
    · exact hold g (List.mem_cons_of_mem _ hg)
  slots := by
    rw [h.same.heap_eq]
    exact hm.slots

theorem StepsTo.holdsOnly (h : StepsTo p m flow m')
    (hmakes : m.store.Makes p m'.store.heap Q) (hm : m.HoldsOnly Q) :
    m'.HoldsOnly Q := by
  obtain ⟨i, f, callers, n, hpoised, heffect⟩ := h
  have hframes := hpoised.turn.frames_eq
  have hn := hpoised.holdsOnly hm
  cases heffect with
  | stays hs => exact hs.holdsOnly hframes (hmakes.of_same hpoised.same) hn
  | calls hc => exact hc.holdsOnly hmakes.null hn
  | returns hr => exact hr.holdsOnly hframes hn

theorem FaultsIn.holdsOnly (h : FaultsIn p m e m')
    (hmakes : m.store.Makes p m'.store.heap Q) (hm : m.HoldsOnly Q) :
    m'.HoldsOnly Q := by
  rcases h with ⟨rfl, -⟩ | ⟨i, f, callers, n, hpoised, hhalts⟩
  · exact hm
  · exact hhalts.holdsOnly hpoised.turn.frames_eq
      (hmakes.of_same hpoised.same) (hpoised.holdsOnly hm)

/-- The value that ends a run satisfies `Q`. -/
theorem StepsTo.finished_satisfies {value : Value}
    (h : StepsTo p m (.finished (some value)) m') (hm : m.HoldsOnly Q) :
    Q value := by
  obtain ⟨i, f, callers, n, hpoised, heffect⟩ := h
  cases heffect with
  | returns hr => exact (hpoised.holdsOnly hm).values value hr.finished

theorem Starts.holdsOnly (h : Starts p m m') (hnull : Q .null)
    (hm : m.HoldsOnly Q) : m'.HoldsOnly Q where
  values := by
    rw [h.values_eq]
    exact fun v hv => absurd hv (Array.not_mem_empty v)
  locals := by
    obtain ⟨index, method, -, -, hframes⟩ := h.frame
    rw [hframes]
    intro f hf v hv
    rw [List.mem_singleton.1 hf] at hv
    rcases Array.mem_append.1 hv with hnone | hfill
    · exact absurd hnone (Array.not_mem_empty v)
    · rw [(Array.mem_replicate.1 hfill).2]
      exact hnull
  slots := by
    rw [h.heap_eq]
    exact hm.slots

theorem Logged.holdsOnly (h : Logged m m') (hm : m.HoldsOnly Q) :
    m'.HoldsOnly Q where
  values := by
    rw [h.same.stack_eq]
    exact hm.values
  locals := by
    rw [h.frames_eq]
    exact hm.locals
  slots := by
    rw [h.same.heap_eq]
    exact hm.slots

/-- A new machine holds zeros only. -/
theorem Created.holdsOnly {b : Bridge δ} {config : Config} {image : Image}
    {console : Console} {devices : δ}
    (h : Created b config image console devices m) (hzero : Q .zero) :
    m.HoldsOnly Q where
  values := by
    rw [h.stack_eq]
    exact fun v hv => absurd hv (Array.not_mem_empty v)
  locals := by
    rw [h.frames_eq]
    exact fun f hf => absurd hf List.not_mem_nil
  slots := by
    have hlaid := Heap.laid_empty config.heapSize config.word.bytes
    obtain ⟨-, -, -, hheap⟩ :=
      (hlaid.allocateKind_ends _ _ _).of_ok h.heap_eq
    rw [hheap]
    intro v hv
    rw [hlaid.slots_extend, Heap.slots_empty, Array.empty_append] at hv
    rw [Array.eq_of_mem_replicate hv]
    exact hzero

/-! ## What no run changes -/

/-- The heap only gets new objects. -/
theorem StepsTo.growsTo (h : StepsTo p m flow m') :
    m.store.heap.GrowsTo m'.store.heap := by
  obtain ⟨i, f, callers, n, hpoised, heffect⟩ := h
  rw [← hpoised.same.heap_eq]
  cases heffect with
  | stays hs => exact hs.change.growsTo
  | calls hc => exact .of_eq hc.heap_eq
  | returns hr => exact .of_eq hr.heap_eq

theorem FaultsIn.growsTo (h : FaultsIn p m e m') :
    m.store.heap.GrowsTo m'.store.heap := by
  rcases h with ⟨rfl, -⟩ | ⟨i, f, callers, n, hpoised, hhalts⟩
  · exact .of_eq rfl
  · rw [← hpoised.same.heap_eq]
    exact hhalts.quiet.growsTo

/-- The input is the same in both machines. -/
def SameInput (m m' : Machine δ) : Prop :=
  m'.store.console.input = m.store.console.input

theorem StepsTo.sameInput (h : StepsTo p m flow m') : SameInput m m' := by
  obtain ⟨i, f, callers, n, hpoised, heffect⟩ := h
  have hn : SameInput m n := congrArg Console.input hpoised.same.console_eq
  cases heffect with
  | stays hs => exact hs.change.input_eq.trans hn
  | calls hc => exact (congrArg Console.input hc.console_eq).trans hn
  | returns hr => exact (congrArg Console.input hr.console_eq).trans hn

theorem FaultsIn.sameInput (h : FaultsIn p m e m') : SameInput m m' := by
  rcases h with ⟨rfl, -⟩ | ⟨i, f, callers, n, hpoised, hhalts⟩
  · rfl
  · have hn : SameInput m n := congrArg Console.input hpoised.same.console_eq
    exact hhalts.quiet.input_eq.trans hn

/-- No run changes the input. -/
theorem preserved_sameInput (p : Program) (m : Machine δ) :
    Preserved p (SameInput m) where
  starts _ hj h := (congrArg Console.input h.console_eq).trans hj
  steps _ _ hj h := h.sameInput.trans hj
  faults _ _ hj h := h.sameInput.trans hj
  logged hj h := (congrArg Console.input h.same.console_eq).trans hj

end Machine

end SlotVm
