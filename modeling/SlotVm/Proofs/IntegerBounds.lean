import SlotVm.Proofs.Values

/-!
# How large integers become

The results of arithmetic are wrapped to the width of the machine, but a
value that is loaded from an array is pushed as it is.  The elements of char
and short arrays have 16 bits, so a machine of narrow words can hold integers
that are not of its width once there is such an array; a heap string is one.

`integers_bounded` is the whole truth about it.  An integer that a machine
holds, or that a run returns, is of the width, or else the words are narrow,
the integer has 16 bits, and the heap has an array of chars or shorts.  This
assumes an input that is short enough for the number of its bytes to be an
integer of the width, since that number can be asked for.
-/

namespace SlotVm

/-- An integer is of the width, or has 16 bits if the heap has an array for
it. -/
def Value.Bounded (w : Width) (h : Heap) : Value → Prop
  | .int n => w.InRange n ∨ IsShort n ∧ h.HasShorts
  | _ => True

theorem Value.Bounded.mono {w : Width} {h h' : Heap} {v : Value}
    (hv : v.Bounded w h) (hgrows : h.GrowsTo h') : v.Bounded w h' := by
  cases v with
  | int n => exact hv.imp_right fun hshort => ⟨hshort.1, hshort.2.mono hgrows⟩
  | null | zero | float | ref | const => trivial

/-- Only integers of a narrow word are fewer than those of 16 bits. -/
theorem Value.Bounded.range {w : Width} {h : Heap} {n : Int32}
    (hn : (Value.int n).Bounded w h) :
    w.InRange n ∨ w = .word16 ∧ IsShort n ∧ h.HasShorts := by
  cases w with
  | word16 => exact hn.imp_right fun hshort => ⟨rfl, hshort⟩
  | word32 =>
    rcases hn with hrange | ⟨hshort, -⟩
    · exact .inl hrange
    · exact .inl (Width.inRange_of_short hshort)

/-- No more bytes can be read than the input has. -/
theorem Console.available_le (c : Console) : c.available ≤ c.input.size := by
  have hrest : c.rest ≤ c.input.size := Nat.sub_le _ _
  unfold available
  split
  · exact Nat.le_trans (Nat.min_le_right _ _) hrest
  · exact hrest

namespace Store

variable {δ : Type} {p : Program} {s : Store δ}

/-- The number of bytes of the input is an integer of the width. -/
def InputFits (p : Program) (s : Store δ) : Prop :=
  (s.console.input.size : Int) ≤ p.config.word.maxInt.toInt

/-- So is the number of bytes that can be read. -/
theorem InputFits.available (h : s.InputFits p) :
    p.config.word.InRange (Int32.ofNat s.console.available) := by
  have hle := s.console.available_le
  have hmin : p.config.word.minInt.toInt ≤ 0 := by
    cases p.config.word <;> decide
  have hmax := p.config.word.maxInt.toInt_lt
  unfold InputFits at h
  unfold Width.InRange
  rw [toInt_ofNat_of_small (by omega)]
  omega

theorem InputFits.makes (h : s.InputFits p) (heap : Heap) :
    s.Makes p heap (Value.Bounded p.config.word heap) where
  null := trivial
  zero := trivial
  int n hn := by
    rcases hn with hrange | hshort | rfl
    · exact .inl hrange
    · exact .inr hshort
    · exact .inl h.available
  float _ _ := trivial
  ref _ := trivial
  const _ := trivial

end Store

namespace Machine

open SlotVm.Action Store

variable {δ : Type} {config : Config} {image : Image} {p : Program}
variable {m m' : Machine δ}

/-- All integers that the machine holds are bounded, if the input is short
enough. -/
def HoldsBounded (p : Program) (m : Machine δ) : Prop :=
  m.store.InputFits p →
    m.HoldsOnly (Value.Bounded p.config.word m.store.heap)

/-- What a step starts from, as it is seen when the step has ended. -/
theorem HoldsBounded.grown (h : HoldsBounded p m) (hinput : SameInput m m')
    (hgrows : m.store.heap.GrowsTo m'.store.heap)
    (hfits : m'.store.InputFits p) :
    m.store.Makes p m'.store.heap
        (Value.Bounded p.config.word m'.store.heap) ∧
      m.HoldsOnly (Value.Bounded p.config.word m'.store.heap) := by
  have hold : m.store.InputFits p := by
    unfold InputFits at hfits ⊢
    rw [← hinput]
    exact hfits
  exact ⟨hold.makes _, (h hold).imp fun v hv => hv.mono hgrows⟩

/-- No part of a run changes that. -/
theorem preserved_holdsBounded (p : Program) :
    Preserved p (HoldsBounded (δ := δ) p) where
  starts := by
    intro m m' _ hj h hfits
    have hinput : SameInput m m' := congrArg Console.input h.console_eq
    have hgrows : m.store.heap.GrowsTo m'.store.heap := .of_eq h.heap_eq
    exact h.holdsOnly trivial (hj.grown hinput hgrows hfits).2
  -- What the machine held is judged in the heap that the step leaves, since
  -- the step itself can allocate the array that an integer needs.
  steps := by
    intro m m' flow _ _ hj h hfits
    obtain ⟨hmakes, hold⟩ := hj.grown h.sameInput h.growsTo hfits
    exact h.holdsOnly hmakes hold
  faults := by
    intro m m' e _ _ hj h hfits
    obtain ⟨hmakes, hold⟩ := hj.grown h.sameInput h.growsTo hfits
    exact h.holdsOnly hmakes hold
  logged := by
    intro m m' hj h hfits
    have hinput : SameInput m m' := congrArg Console.input h.same.console_eq
    have hgrows : m.store.heap.GrowsTo m'.store.heap := .of_eq h.same.heap_eq
    exact h.holdsOnly (hj.grown hinput hgrows hfits).2

/-- Integers are bounded between runs and in runs. -/
theorem holdsBounded_of_session
    (hm : Rests config image m ∨ InRun config image m) :
    HoldsBounded (.load config image) m := by
  have hcreated : ∀ {b : Bridge δ} {console : Console} {devices : δ} {m},
      Created b config image console devices m →
      HoldsBounded (.load config image) m :=
    fun h _ => h.holdsOnly trivial
  rcases hm with hrests | hrun
  · exact (preserved_holdsBounded _).rests hcreated hrests
  · exact (preserved_holdsBounded _).inRun hcreated hrun

/-- The value that ends a run is bounded too. -/
theorem finished_bounded {fuel : Nat} {entry : MethodRef} {value : Value}
    (hm : Rests config image m) (hfits : m.store.InputFits (.load config image))
    (hrun : run fuel entry m = .ok (.finished (some value)) m') :
    value.Bounded config.word m'.store.heap := by
  have hkeep := (preserved_sameInput (.load config image) m).and
    (preserved_holdsBounded (.load config image))
  obtain ⟨n, m1, ⟨hinput, hn⟩, hto, hlogged⟩ :=
    hkeep.last hm.founded ⟨rfl, holdsBounded_of_session (.inl hm)⟩ hrun
  have hfits' : n.store.InputFits (.load config image) := by
    unfold InputFits
    rw [hinput]
    exact hfits
  rw [hlogged.same.heap_eq]
  exact (hto.finished_satisfies (hn hfits')).mono hto.growsTo

/-- Every integer that a machine holds or that a run returns is of the width,
or it is one of 16 bits on a machine of narrow words which has an array of
chars or shorts.  The input is the same all the time. -/
theorem integers_bounded (config : Config) (image : Image) :
    (∀ (m : Machine δ) (n : Int32), Rests config image m ∨ InRun config image m →
      (m.store.console.input.size : Int) ≤ config.word.maxInt.toInt →
      m.Held (.int n) →
      config.word.InRange n ∨
        config.word = .word16 ∧ IsShort n ∧ m.store.heap.HasShorts) ∧
    (∀ (m m' : Machine δ) (fuel : Nat) (entry : MethodRef) (n : Int32),
      Rests config image m →
      (m.store.console.input.size : Int) ≤ config.word.maxInt.toInt →
      run fuel entry m = .ok (.finished (some (.int n))) m' →
      config.word.InRange n ∨
        config.word = .word16 ∧ IsShort n ∧ m'.store.heap.HasShorts) ∧
    ∀ (m m' : Machine δ) (fuel : Nat) (entry : MethodRef),
      Rests config image m → Leaves (run fuel entry) m m' →
      m'.store.console.input = m.store.console.input := by
  refine ⟨?_, ?_, ?_⟩
  · intro m n hm hfits hheld
    have hbounded := (holdsBounded_of_session hm hfits).held hheld
    exact hbounded.range
  · intro m m' fuel entry n hm hfits hrun
    exact (finished_bounded hm hfits hrun).range
  · intro m m' fuel entry hm hleaves
    exact (preserved_sameInput _ m).run hm.founded rfl hleaves

/-- The entry point stores a number in an array of chars and returns the
element. -/
def charElement : Image where
  classes := [⟨0, none, 0⟩]
  methods := #[⟨0, 0, 0, 0, 4, .bytecode 0 10⟩]
  constants := #[]
  code := #[0x04, 0xbc, 0x05, 0x59, 0x03, 0x02, 0x55, 0x03, 0x34, 0xac]
  staticFields := 0
  main := ⟨0, 0⟩

/-- A run on narrow words that stores the integer `-1` and returns an integer
that is not of the width. -/
theorem integers_bounded_charElement : ∃ m m' : Machine Unit,
    Rests .asuro charElement m ∧ m.store.console.input.size = 0 ∧
    run 9 charElement.main m = .ok (.finished (some (.int 65535))) m' ∧
    ¬ Config.asuro.word.InRange 65535 ∧ IsShort 65535 ∧
    m'.store.heap.HasShorts := by
  have htest : (fresh? .asuro charElement).any (fun m =>
      m.store.console.input.size == 0 &&
      (ended? 9 charElement.main m).any fun x =>
        x.1.any fun v => (v.asInt "").toOption == some 65535) = true := by
    decide +kernel
  simp only [Option.any_eq_true, Bool.and_eq_true, beq_iff_eq] at htest
  obtain ⟨m, hfresh, hsize, ⟨_, m'⟩, hended, v, rfl, hint⟩ := htest
  have hwide : ¬ Config.asuro.word.InRange 65535 := by
    intro hrange
    exact absurd hrange.2 (by decide)
  have hm := rests_of_fresh hfresh
  rcases Value.asInt_ok (eq_ok_of_toOption hint) with rfl | ⟨-, hzero⟩
  · have hrun := run_of_ended hended
    have hfits : (m.store.console.input.size : Int) ≤
        Config.asuro.word.maxInt.toInt := by
      rw [hsize]
      decide
    obtain ⟨-, hreturned, -⟩ :=
      integers_bounded (δ := Unit) .asuro charElement
    rcases hreturned m m' 9 charElement.main 65535 hm hfits hrun with
      hrange | ⟨-, hshort, hshorts⟩
    · exact absurd hrange hwide
    · exact ⟨m, m', hm, hsize, hrun, hwide, hshort, hshorts⟩
  · exact absurd hzero (by decide)

end Machine

end SlotVm
