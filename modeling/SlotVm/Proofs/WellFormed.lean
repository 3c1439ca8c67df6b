import SlotVm.Proofs.Ancestors
import SlotVm.Proofs.Config

/-!
# Well-formed images

`Image.WellFormed` says what an image is like that fits a configuration.  It
speaks of the whole image, without an order of checks and without a bound on
walks, and its parts are about numbers and links and not about the functions
of the library.

Under a valid configuration the check accepts exactly these images
(`check_iff_wellFormed`).  The check looks for duplicates among the entries in
front of each entry (`nodup_iff_take`), and it walks up from each class to
find out if the parent links have a cycle (`reachesRoot_iff_acyclic`).
-/

namespace SlotVm.Image

variable {image : Image} {config : Config}

/-- The image fits the configuration. -/
structure WellFormed (image : Image) (config : Config) : Prop where
  code_le : image.code.size ≤ config.codeSize
  distinctClasses : image.DistinctClasses
  classes_lt : ∀ c ∈ image.classes, c.id < config.native.classBase
  /-- A parent is a native class or one of the image. -/
  parents : ∀ c ∈ image.classes, ∀ parent, c.parent = some parent →
    config.native.classBase ≤ parent ∨ ∃ d ∈ image.classes, d.id = parent
  acyclic : image.Acyclic
  /-- The ids of a method share the 16 bits of an operand. -/
  refs_lt : ∀ m ∈ image.methods,
    m.methodId.toNat < 1 <<< config.native.methodBits.toNat ∧
      m.classId.toNat < 1 <<< (16 - config.native.methodBits.toNat)
  declared : ∀ m ∈ image.methods, ∃ c ∈ image.classes, c.id = m.classId
  distinctMethods : (image.methods.toList.map (·.ref)).Nodup
  /-- Code lies in the code region, whatever storage keeps it. -/
  code_inside : ∀ m ∈ image.methods, ∀ address len,
    m.body = .bytecode address len →
    (address &&& ~~~config.storageFlag).toNat + len.toNat ≤ image.code.size
  entry : ∃ m ∈ image.methods, m.ref = image.main ∧ m.isNative = false

/-! ## The parts of the check -/

/-- Keys are distinct if no entry has the key of one in front of it. -/
theorem nodup_iff_take {α κ : Type} {key : α → κ} {entries : List α} :
    (entries.map key).Nodup ↔ ∀ i (hi : i < entries.length),
      ∀ entry ∈ entries.take i, key entry ≠ key entries[i] := by
  unfold List.Nodup
  rw [List.pairwise_map, List.pairwise_iff_getElem]
  constructor
  · intro h i hi entry hentry
    obtain ⟨j, hj, rfl⟩ := List.mem_take_iff_getElem.1 hentry
    exact h j i (by omega) hi (by omega)
  · intro h i j hi hj hij
    exact h j hj _ (List.mem_take_iff_getElem.2 ⟨i, by omega, rfl⟩)

/-- The defects of a list of entries whose check is a test of each entry and
one for duplicates. -/
theorem firstDefect_none_iff_distinct {α κ : Type} {key : α → κ}
    {defect? : List α → α → Option ImageDefect} {entries : List α}
    {P : α → Prop}
    (hdefect : ∀ earlier entry, defect? earlier entry = none ↔
      P entry ∧ ∀ other ∈ earlier, key other ≠ key entry) :
    firstDefect? defect? entries = none ↔
      (∀ entry ∈ entries, P entry) ∧ (entries.map key).Nodup := by
  rw [firstDefect_none_iff, nodup_iff_take]
  constructor
  · intro h
    refine ⟨?_, fun i hi => ((hdefect _ _).1 (h i hi)).2⟩
    intro entry hentry
    obtain ⟨i, hi, rfl⟩ := List.getElem_of_mem hentry
    exact ((hdefect _ _).1 (h i hi)).1
  · intro h i hi
    exact (hdefect _ _).2 ⟨h.1 _ (List.getElem_mem hi), h.2 i hi⟩

/-- The classes have no defect. -/
theorem classes_ok_iff {native : NativeRange} :
    firstDefect? (image.classDefect? native) image.classes = none ↔
      (∀ c ∈ image.classes, ¬ native.Contains c.id ∧
        image.parentDefect? native c = none ∧
        image.reachesRoot c.id = true) ∧ image.DistinctClasses := by
  apply firstDefect_none_iff_distinct
  intro earlier c
  rw [classDefect_none_iff]
  tauto

/-- The methods have no defect. -/
theorem methods_ok_iff :
    firstDefect? (image.methodDefect? config) image.methods.toList = none ↔
      (∀ m ∈ image.methods.toList, config.native.layout.Fits m.ref ∧
        (image.class? m.classId).isSome = true ∧
        image.bodyDefect? config.storageFlag m = none) ∧
      (image.methods.toList.map (·.ref)).Nodup := by
  apply firstDefect_none_iff_distinct
  intro earlier m
  rw [methodDefect_none_iff]
  tauto

/-- The classes are well formed. -/
theorem classes_ok_iff_wellFormed {native : NativeRange} :
    firstDefect? (image.classDefect? native) image.classes = none ↔
      image.DistinctClasses ∧ (∀ c ∈ image.classes, c.id < native.classBase) ∧
        (∀ c ∈ image.classes, ∀ parent, c.parent = some parent →
          native.classBase ≤ parent ∨ ∃ d ∈ image.classes, d.id = parent) ∧
        image.Acyclic := by
  have hbelow : ∀ c : ClassDescriptor,
      ¬ native.Contains c.id ↔ c.id < native.classBase := fun _ =>
    UInt16.not_le
  have hparent : ∀ c : ClassDescriptor, image.parentDefect? native c = none ↔
      ∀ parent, c.parent = some parent →
        native.classBase ≤ parent ∨ ∃ d ∈ image.classes, d.id = parent := by
    intro c
    simp only [parentDefect_none_iff, class?_isSome_iff]
    exact Iff.rfl
  rw [classes_ok_iff]
  simp only [hbelow, hparent]
  constructor
  · intro h
    obtain ⟨hclasses, hdistinct⟩ := h
    refine ⟨hdistinct, fun c hc => (hclasses c hc).1,
      fun c hc => (hclasses c hc).2.1, ?_⟩
    exact (reachesRoot_iff_acyclic hdistinct).1
      fun c hc => (hclasses c hc).2.2
  · intro h
    obtain ⟨hdistinct, hlt, hparents, hacyclic⟩ := h
    have hroot := (reachesRoot_iff_acyclic hdistinct).2 hacyclic
    exact ⟨fun c hc => ⟨hlt c hc, hparents c hc, hroot c hc⟩, hdistinct⟩

/-- The methods are well formed. -/
theorem methods_ok_iff_wellFormed (hc : config.Valid) :
    firstDefect? (image.methodDefect? config) image.methods.toList = none ↔
      (∀ m ∈ image.methods,
        m.methodId.toNat < 1 <<< config.native.methodBits.toNat ∧
          m.classId.toNat < 1 <<< (16 - config.native.methodBits.toNat)) ∧
        (∀ m ∈ image.methods, ∃ c ∈ image.classes, c.id = m.classId) ∧
        (image.methods.toList.map (·.ref)).Nodup ∧
        ∀ m ∈ image.methods, ∀ address len, m.body = .bytecode address len →
          (address &&& ~~~config.storageFlag).toNat + len.toNat ≤
            image.code.size := by
  have hfits : ∀ m : MethodDescriptor, config.native.layout.Fits m.ref ↔
      m.methodId.toNat < 1 <<< config.native.methodBits.toNat ∧
        m.classId.toNat < 1 <<< (16 - config.native.methodBits.toNat) :=
    fun _ => RefLayout.fits_iff hc.methodBits_le
  rw [methods_ok_iff]
  simp only [hfits, class?_isSome_iff, bodyDefect_none_iff,
    Address.offset_decode hc.flag_ne_zero, Array.mem_toList_iff]
  constructor
  · intro h
    obtain ⟨hmethods, hdistinct⟩ := h
    exact ⟨fun m hm => (hmethods m hm).1, fun m hm => (hmethods m hm).2.1,
      hdistinct, fun m hm => (hmethods m hm).2.2⟩
  · intro h
    obtain ⟨hrefs, hdeclared, hdistinct, hinside⟩ := h
    exact ⟨fun m hm => ⟨hrefs m hm, hdeclared m hm, hinside m hm⟩, hdistinct⟩

/-- Where no two methods share a reference, each method is the one that is
found. -/
theorem findMethod_of_entry
    (hdistinct : (image.methods.toList.map (·.ref)).Nodup)
    {index : Nat} {m : MethodDescriptor}
    (hentry : image.methods[index]? = some m) :
    image.findMethod? m.ref = some index := by
  obtain ⟨hlt, rfl⟩ := Array.getElem?_eq_some_iff.1 hentry
  unfold findMethod?
  rw [Array.findIdx?_eq_some_iff_getElem]
  refine ⟨hlt, beq_self_eq_true _, ?_⟩
  intro j hj heq
  have hmem : image.methods[j] ∈ image.methods.toList.take index :=
    List.mem_take_iff_getElem.2 ⟨j, by simp; omega, rfl⟩
  exact nodup_iff_take.1 hdistinct index hlt _ hmem (beq_iff_eq.1 heq)

theorem findMethod_of_mem
    (hdistinct : (image.methods.toList.map (·.ref)).Nodup)
    {m : MethodDescriptor} (hm : m ∈ image.methods) :
    ∃ index, image.findMethod? m.ref = some index ∧
      image.methods[index]? = some m := by
  obtain ⟨index, hentry⟩ := Array.getElem?_of_mem hm
  exact ⟨index, findMethod_of_entry hdistinct hentry, hentry⟩

/-- The entry point is well formed.  The method that is found is the only one
with the reference. -/
theorem entry_ok_iff_wellFormed
    (hdistinct : (image.methods.toList.map (·.ref)).Nodup) :
    image.entryDefect? = none ↔
      ∃ m ∈ image.methods, m.ref = image.main ∧ m.isNative = false := by
  rw [entryDefect_none_iff]
  constructor
  · intro h
    obtain ⟨m, hfound, hnative⟩ := h
    have href := Array.find?_some hfound
    exact ⟨m, Array.mem_of_find?_eq_some hfound, beq_iff_eq.1 href, hnative⟩
  · intro h
    obtain ⟨m, hm, href, hnative⟩ := h
    cases hfound : image.methods.find? (·.ref == image.main) with
    | none =>
      have hother := Array.find?_eq_none.1 hfound m hm
      exact absurd (beq_iff_eq.2 href) hother
    | some n =>
      -- The first method with the reference might be native if there were two.
      have hother := Array.find?_some hfound
      have hn : n = m := by
        apply List.inj_on_of_nodup_map hdistinct
        · exact Array.mem_toList_iff.2 (Array.mem_of_find?_eq_some hfound)
        · exact Array.mem_toList_iff.2 hm
        · exact (beq_iff_eq.1 hother).trans href.symm
      exact ⟨n, rfl, hn ▸ hnative⟩

/-! ## The whole check -/

/-- Under a valid configuration the check accepts exactly the well-formed
images. -/
theorem check_iff_wellFormed (hconfig : config.check = .ok ()) :
    image.check config = .ok () ↔ image.WellFormed config := by
  have hvalid := Config.valid_of_check hconfig
  rw [check_ok_iff, classes_ok_iff_wellFormed,
    methods_ok_iff_wellFormed hvalid]
  constructor
  · intro h
    obtain ⟨hcode, ⟨hclasses, hlt, hparents, hacyclic⟩,
      ⟨hrefs, hdeclared, hmethods, hinside⟩, hentry⟩ := h
    exact {
      code_le := hcode
      distinctClasses := hclasses
      classes_lt := hlt
      parents := hparents
      acyclic := hacyclic
      refs_lt := hrefs
      declared := hdeclared
      distinctMethods := hmethods
      code_inside := hinside
      entry := (entry_ok_iff_wellFormed hmethods).1 hentry }
  · intro h
    exact ⟨h.code_le,
      ⟨h.distinctClasses, h.classes_lt, h.parents, h.acyclic⟩,
      ⟨h.refs_lt, h.declared, h.distinctMethods, h.code_inside⟩,
      (entry_ok_iff_wellFormed h.distinctMethods).2 h.entry⟩

/-- Three classes, each the parent of the one in front of it. -/
def chained (last : UInt16) : Image where
  classes := [⟨0, some 1, 0⟩, ⟨1, some 2, 0⟩, ⟨2, some last, 0⟩]
  methods := #[⟨0, 0, 0, 0, 0, .bytecode 0x40000000 1⟩]
  constants := #[]
  code := #[0xb1]
  staticFields := 0
  main := ⟨0, 0⟩

/-- The longest chain that there can be, with a native class at its end, and
the same chain closed to a cycle. -/
theorem check_iff_wellFormed_chained :
    Config.unix.check = .ok () ∧ (chained 16).WellFormed .unix ∧
      ¬ (chained 0).WellFormed .unix := by
  have hconfig : Config.unix.check = .ok () := by decide +kernel
  refine ⟨hconfig, ?_, ?_⟩
  · exact (check_iff_wellFormed hconfig).1 (by decide +kernel)
  · intro h
    have hcheck := (check_iff_wellFormed hconfig).2 h
    have hrefused : (chained 0).check .unix ≠ .ok () := by decide +kernel
    exact hrefused hcheck

end SlotVm.Image
