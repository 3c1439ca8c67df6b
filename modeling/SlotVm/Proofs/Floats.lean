import SlotVm.Proofs.Narrowing.Session
import SlotVm.Proofs.Values

/-!
# A profile without floats

A profile that has no float support has no floats: no machine of it holds
one, its heap has no array of floats, and no run returns one (`no_floats`).

The opcodes that compute with floats are refused before they are executed.
The invariant is about the other ways.  A float constant and the type code of
a float array stand in the image, and the instructions that read them check
the profile themselves.  The loads and stores of float arrays are refused with
the other array instructions only, so they rely on the heap: without an array
of floats there is nothing that they can load, and nothing that they can
narrow to a float (`Store.AdmitsFloats`).
-/

namespace SlotVm

/-- The value is not a float.  A zero that has no type yet is none. -/
def Value.NotFloat : Value → Prop
  | .float _ => False
  | _ => True

namespace Heap

variable {p : Program} {h h' : Heap}

/-- The objects of the second heap are those of the first one and others that
the program can allocate. -/
def GainsOnly (p : Program) (h h' : Heap) : Prop :=
  ∀ entry ∈ h'.objects, entry ∈ h.objects ∨ p.Allocates entry.kind

theorem GainsOnly.of_eq (heq : h' = h) : h.GainsOnly p h' := by
  rw [heq]
  exact fun _ hentry => .inl hentry

theorem GainsOnly.of_change {δ : Type} {K : Value → Prop}
    {W : UInt16 → Prop} {s t : Store δ} (hc : Store.Change p K W s t) :
    s.heap.GainsOnly p t.heap := by
  intro entry hentry
  obtain ⟨k, hk⟩ := Array.getElem?_of_mem hentry
  rcases hc.added k entry hk with hold | ⟨-, hallocates⟩
  · exact .inl (Array.mem_of_getElem? hold)
  · exact .inr hallocates

/-- The heap has no array of floats. -/
def NoFloatArrays (h : Heap) : Prop :=
  ∀ entry ∈ h.objects, entry.kind ≠ .array .float

/-- Arrays of floats need the profile. -/
theorem NoFloatArrays.gain (hnone : h.NoFloatArrays)
    (hfloat : p.config.features.float = false) (hgains : h.GainsOnly p h') :
    h'.NoFloatArrays := by
  intro entry hentry hkind
  rcases hgains entry hentry with hold | hallocates
  · exact hnone entry hold hkind
  · rw [hkind] at hallocates
    exact absurd (hfloat.symm.trans hallocates) Bool.false_ne_true

end Heap

namespace Machine

open SlotVm.Action Store

variable {δ : Type} {config : Config} {image : Image} {p : Program}
variable {m m' : Machine δ} {flow : Flow} {e : Fault}

/-- A step adds no objects but those that the program can allocate. -/
theorem StepsTo.gainsOnly (h : StepsTo p m flow m') :
    m.store.heap.GainsOnly p m'.store.heap := by
  obtain ⟨i, f, callers, n, hpoised, heffect⟩ := h
  rw [← hpoised.same.heap_eq]
  cases heffect with
  | stays hs => exact .of_change hs.change
  | calls hc => exact .of_eq hc.heap_eq
  | returns hr => exact .of_eq hr.heap_eq

theorem FaultsIn.gainsOnly (h : FaultsIn p m e m') :
    m.store.heap.GainsOnly p m'.store.heap := by
  rcases h with ⟨rfl, -⟩ | ⟨i, f, callers, n, hpoised, hhalts⟩
  · exact .of_eq rfl
  · rw [← hpoised.same.heap_eq]
    exact .of_change hhalts.quiet.toChange

/-- The machine holds no float and has no array for one. -/
structure FloatFree (m : Machine δ) : Prop where
  values : m.HoldsOnly Value.NotFloat
  arrays : m.store.heap.NoFloatArrays

/-- No instruction makes a float then. -/
theorem FloatFree.makes (h : m.FloatFree)
    (hfloat : p.config.features.float = false) (heap : Heap) :
    m.store.Makes p heap Value.NotFloat where
  null := trivial
  zero := trivial
  int _ _ := trivial
  float x hx := by
    rcases hx with hfeature | ⟨entry, hentry, hkind⟩
    · exact absurd (hfloat.symm.trans hfeature) Bool.false_ne_true
    · exact absurd hkind (h.arrays entry hentry)
  ref _ := trivial
  const _ := trivial

/-- No part of a run changes that. -/
theorem preserved_floatFree (hfloat : p.config.features.float = false) :
    Preserved p (FloatFree (δ := δ)) where
  starts _ hj h := ⟨h.holdsOnly trivial hj.values,
    hj.arrays.gain hfloat (.of_eq h.heap_eq)⟩
  steps _ _ hj h := ⟨h.holdsOnly (hj.makes hfloat _) hj.values,
    hj.arrays.gain hfloat h.gainsOnly⟩
  faults _ _ hj h := ⟨h.holdsOnly (hj.makes hfloat _) hj.values,
    hj.arrays.gain hfloat h.gainsOnly⟩
  logged hj h := ⟨h.holdsOnly hj.values,
    hj.arrays.gain hfloat (.of_eq h.same.heap_eq)⟩

/-- A new machine has the block of the static fields, and that holds zeros. -/
theorem Created.floatFree {b : Bridge δ} {console : Console} {devices : δ}
    (h : Created b config image console devices m) : m.FloatFree where
  values := h.holdsOnly trivial
  arrays := by
    obtain ⟨block, hobjects, hblock, -⟩ := h.objects_eq
    intro entry hentry hkind
    have hentry' : entry ∈ m.heap.objects := hentry
    rw [hobjects] at hentry'
    cases Array.mem_singleton.1 hentry'
    cases hblock.symm.trans hkind

theorem floatFree_of_session (hfloat : config.features.float = false)
    (hm : Rests config image m ∨ InRun config image m) : m.FloatFree := by
  have hkept := preserved_floatFree (p := .load config image) (δ := δ) hfloat
  rcases hm with hrests | hrun
  · exact hkept.rests Created.floatFree hrests
  · exact hkept.inRun Created.floatFree hrun

/-- Under a profile without float support no machine holds a float, between
runs and in runs, no heap has an array of floats, and no run returns a float.
The image may be any one, with float constants and with type codes of float
arrays. -/
theorem no_floats (config : Config) (image : Image)
    (hfloat : config.features.float = false) :
    (∀ m : Machine δ, Rests config image m ∨ InRun config image m →
      (∀ x, ¬ m.Held (.float x)) ∧
      ∀ entry ∈ m.store.heap.objects, entry.kind ≠ .array .float) ∧
    ∀ (m m' : Machine δ) (fuel : Nat) (entry : MethodRef) (x : Float32),
      Rests config image m →
      run fuel entry m ≠ .ok (.finished (some (.float x))) m' := by
  refine ⟨?_, ?_⟩
  · intro m hm
    have hfree := floatFree_of_session hfloat hm
    exact ⟨fun x hheld => hfree.values.held hheld, hfree.arrays⟩
  · intro m m' fuel entry x hm hrun
    -- A returned value is one that the machine held in front of the last step.
    obtain ⟨n, m1, hn, hto, -⟩ := (preserved_floatFree hfloat).last hm.founded
      (floatFree_of_session hfloat (.inl hm)) hrun
    have hreturned : Value.NotFloat (.float x) :=
      hto.finished_satisfies hn.values
    exact hreturned

/-- The entry point puts 7 into an array of integers and loads a float
constant. -/
def floatConstant : Image where
  classes := [⟨0, none, 0⟩]
  methods := #[⟨0, 0, 0, 0, 4, .bytecode 0 11⟩]
  constants := #[.float 1.5]
  code := #[0x04, 0xbc, 0x0a, 0x59, 0x03, 0x10, 0x07, 0x4f, 0x12, 0x00, 0xb0]
  staticFields := 0
  main := ⟨0, 0⟩

/-- The load of the constant is refused, and the machine that is left holds
the integer and no float. -/
theorem no_floats_floatConstant : ∃ m m' : Machine Unit,
    Rests .asuro floatConstant m' ∧ Config.asuro.features.float = false ∧
    runMain 10 m = .error (.unsupportedOpcode 0x12 "float") m' ∧
    m'.Held (.int 7) ∧ (∀ x, ¬ m'.Held (.float x)) ∧
    ∀ m'' fuel entry x, run fuel entry m' ≠
      .ok (.finished (some (.float x))) m'' := by
  have htest : (fresh? .asuro floatConstant).any (fun m =>
      (stopped? 10 m).any fun x => x.1 == .unsupportedOpcode 0x12 "float" &&
        x.2.store.heap.arena.slots.any fun v =>
          (v.asInt "").toOption == some 7) = true := by
    decide +kernel
  simp only [Option.any_eq_true, Bool.and_eq_true, beq_iff_eq,
    Array.any_eq_true] at htest
  obtain ⟨m, hfresh, ⟨e, m'⟩, hstopped, rfl, i, hi, hint⟩ := htest
  have hfloat : Config.asuro.features.float = false := rfl
  have hrun := runMain_of_stopped hstopped
  have hm' : Rests .asuro floatConstant m' :=
    .stopped (rests_of_fresh hfresh) hrun
  have hseven : m'.Held (.int 7) := by
    rcases Value.asInt_ok (eq_ok_of_toOption hint) with hslot | ⟨-, hzero⟩
    · rw [← hslot]
      exact .slot (Array.getElem_mem hi)
    · exact absurd hzero (by decide)
  obtain ⟨hheld, hreturns⟩ := no_floats (δ := Unit) .asuro floatConstant hfloat
  exact ⟨m, m', hm', hfloat, hrun, hseven, (hheld m' (.inl hm')).1,
    fun m'' fuel entry x => hreturns m' m'' fuel entry x hm'⟩

end Machine

end SlotVm
