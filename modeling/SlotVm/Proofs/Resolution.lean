import SlotVm.Proofs.WellFormed

/-!
# The nearest declaration

`Image.Nearest` says which class of a chain of parents is the first one that
declares a method.  It has no bound on the length of the chain and knows
nothing of native classes, and `Image.resolve` computes it in a well-formed
image.

* A lookup that finds a method of the image has found it on the nearest class
  (`nearest_of_resolve`).
* If there is a nearest class, the lookup finds its method
  (`Linked.resolve_of_nearest`).  It does not come to a native class in front
  of it, since the classes up to it are all declared, and it does not give up,
  since it visits none of them twice (`Suffices`).
* Where a class has a nearest declaration, its descendants have one too
  (`nearest_of_derives`).
* The test for descendants goes the same way, with the same bound
  (`Linked.isSubclass_of_derives`).
-/

namespace SlotVm.Image

open Relation

variable {image : Image} {config : Config} {native : NativeRange}
variable {r : MethodRef} {methodId a b d : UInt16}

/-- The class `a` has a method of its own with this id. -/
def Declares (image : Image) (methodId a : UInt16) : Prop :=
  ∃ m ∈ image.methods, m.ref = ⟨a, methodId⟩

/-- Of the class `a` and its ancestors, `d` is the first one that declares
the method. -/
inductive Nearest (image : Image) (methodId : UInt16) :
    UInt16 → UInt16 → Prop where
  | here {a : UInt16} : image.Declares methodId a → Nearest image methodId a a
  | up {a b d : UInt16} : ¬ image.Declares methodId a → image.Extends a b →
      Nearest image methodId b d → Nearest image methodId a d

/-! ## Declarations -/

theorem findMethod_eq_none_iff :
    image.findMethod? ⟨a, methodId⟩ = none ↔ ¬ image.Declares methodId a := by
  unfold findMethod? Declares
  rw [Array.findIdx?_eq_none_iff]
  constructor
  · intro h hdeclares
    obtain ⟨m, hm, href⟩ := hdeclares
    exact Bool.false_ne_true ((h m hm).symm.trans (beq_iff_eq.2 href))
  · intro h m hm
    rw [beq_eq_false_iff_ne]
    exact fun href => h ⟨m, hm, href⟩

/-- A method that is found on a class is declared by it. -/
theorem declares_of_findMethod {index : Nat}
    (h : image.findMethod? ⟨a, methodId⟩ = some index) :
    image.Declares methodId a := by
  obtain ⟨m, hm, href⟩ := findMethod_some h
  exact ⟨m, Array.mem_of_getElem? hm, href⟩

/-- The nearest class declares the method. -/
theorem Nearest.declares (h : image.Nearest methodId a d) :
    image.Declares methodId d := by
  induction h with
  | here hdeclares => exact hdeclares
  | up _ _ _ ih => exact ih

theorem nearest_of_derives (hderives : image.Derives a b)
    (h : image.Nearest methodId b d) : ∃ d', image.Nearest methodId a d' := by
  induction hderives using ReflTransGen.head_induction_on with
  | refl => exact ⟨d, h⟩
  | @head a c hlink _ ih =>
    obtain ⟨d', hnearest⟩ := ih
    by_cases hdeclares : image.Declares methodId a
    · exact ⟨a, .here hdeclares⟩
    · exact ⟨d', .up hdeclares hlink hnearest⟩

/-! ## Images for lookups

A lookup relies on the classes and on the references of methods, and not on
code or on the entry point.
-/

/-- The classes and methods that lookups go through fit together. -/
structure Linked (image : Image) (native : NativeRange) : Prop where
  distinctClasses : image.DistinctClasses
  classes_lt : ∀ c ∈ image.classes, c.id < native.classBase
  /-- A parent is a native class or one of the image. -/
  parents : ∀ c ∈ image.classes, ∀ parent, c.parent = some parent →
    native.classBase ≤ parent ∨ ∃ d ∈ image.classes, d.id = parent
  acyclic : image.Acyclic
  declared : ∀ m ∈ image.methods, ∃ c ∈ image.classes, c.id = m.classId
  distinctMethods : (image.methods.toList.map (·.ref)).Nodup

/-- The check of an image establishes this under any configuration, be it
consistent or not. -/
theorem linked_of_check (h : image.check config = .ok ()) :
    image.Linked config.native := by
  obtain ⟨-, hclasses, hmethods, -⟩ := check_ok_iff.1 h
  obtain ⟨hdistinct, hlt, hparents, hacyclic⟩ :=
    classes_ok_iff_wellFormed.1 hclasses
  obtain ⟨hdeclared, hrefs⟩ := methods_ok_iff.1 hmethods
  refine ⟨hdistinct, hlt, hparents, hacyclic, ?_, hrefs⟩
  intro m hm
  exact class?_isSome_iff.1 (hdeclared m (Array.mem_toList_iff.2 hm)).2.1

theorem WellFormed.linked (hwell : image.WellFormed config) :
    image.Linked config.native where
  distinctClasses := hwell.distinctClasses
  classes_lt := hwell.classes_lt
  parents := hwell.parents
  acyclic := hwell.acyclic
  declared := hwell.declared
  distinctMethods := hwell.distinctMethods

namespace Linked

variable (hlinked : image.Linked native)

include hlinked

/-- A class that the image declares is not a native one. -/
theorem not_native_of_mem {c : ClassDescriptor} (hc : c ∈ image.classes) :
    ¬ native.Contains c.id :=
  UInt16.not_le.2 (hlinked.classes_lt c hc)

/-- Neither is one that declares a method, -/
theorem not_native_of_declares (h : image.Declares methodId a) :
    ¬ native.Contains a := by
  obtain ⟨m, hm, href⟩ := h
  obtain ⟨c, hc, hid⟩ := hlinked.declared m hm
  have hclass : m.classId = a := congrArg MethodRef.classId href
  rw [← hclass, ← hid]
  exact hlinked.not_native_of_mem hc

/-- nor one that has a parent. -/
theorem not_native_of_extends (h : image.Extends a b) :
    ¬ native.Contains a := by
  obtain ⟨c, hc, rfl, -⟩ := h
  exact hlinked.not_native_of_mem hc

/-! ## Lookups -/

/-- A walk ends at a class with a method, whether it inherits or not. -/
theorem resolveFrom_own {inherit : Bool} {index : Nat} {m : MethodDescriptor}
    (hentry : image.methods[index]? = some m)
    (href : m.ref = ⟨a, r.methodId⟩) (fuel : Nat) :
    image.resolveFrom native r inherit (fuel + 1) a =
      .ok (.method index) := by
  have hdeclares : image.Declares r.methodId a :=
    ⟨m, Array.mem_of_getElem? hentry, href⟩
  have hfound := findMethod_of_entry hlinked.distinctMethods hentry
  rw [href] at hfound
  rw [resolveFrom, if_neg (hlinked.not_native_of_declares hdeclares)]
  simp only [hfound]

/-- A walk goes on from a class that does not declare the method. -/
theorem resolveFrom_of_extends (hnone : ¬ image.Declares r.methodId a)
    (hlink : image.Extends a b) (fuel : Nat) :
    image.resolveFrom native r true (fuel + 1) a =
      image.resolveFrom native r true fuel b := by
  have hnative := hlinked.not_native_of_extends hlink
  obtain ⟨c, hc, rfl, hparent⟩ := hlink
  have hclass := class?_of_mem hlinked.distinctClasses hc
  rw [resolveFrom, if_neg hnative]
  simp only [findMethod_eq_none_iff.2 hnone, if_true, hclass, hparent]

/-- A walk finds the method of the nearest class. -/
theorem resolveFrom_of_nearest (h : image.Nearest r.methodId a d)
    {index : Nat} {m : MethodDescriptor}
    (hentry : image.methods[index]? = some m) (href : m.ref = ⟨d, r.methodId⟩)
    {fuel : Nat} (hfuel : image.Suffices fuel a) :
    image.resolveFrom native r true fuel a = .ok (.method index) := by
  induction h generalizing fuel with
  | @here a hdeclares =>
    obtain ⟨fuel, rfl⟩ := hfuel.pos image.extends_bounded
    exact hlinked.resolveFrom_own hentry href fuel
  | @up a b d hnone hlink hnearest ih =>
    obtain ⟨fuel, rfl⟩ := hfuel.pos image.extends_bounded
    rw [hlinked.resolveFrom_of_extends hnone hlink]
    exact ih href (hfuel.next (hlinked.acyclic _) hlink)

/-- A lookup finds the method of the nearest class. -/
theorem resolve_of_nearest (h : image.Nearest r.methodId r.classId d) :
    ∃ index m, image.resolve native r true = .ok (.method index) ∧
      image.methods[index]? = some m ∧ m.ref = ⟨d, r.methodId⟩ := by
  obtain ⟨m, hm, href⟩ := h.declares
  obtain ⟨index, hentry⟩ := Array.getElem?_of_mem hm
  refine ⟨index, m, ?_, hentry, href⟩
  exact hlinked.resolveFrom_of_nearest h hentry href
    (.of_lt _ (Nat.lt_succ_self _))

/-- A walk up to an ancestor meets it. -/
theorem meets_of_derives (h : image.Derives a b) {fuel : Nat}
    (hfuel : image.Suffices fuel a) : image.meets b fuel a = true := by
  induction h using ReflTransGen.head_induction_on generalizing fuel with
  | refl =>
    obtain ⟨fuel, rfl⟩ := hfuel.pos image.extends_bounded
    rw [meets, beq_self_eq_true, Bool.true_or]
  | @head a c hlink _ ih =>
    obtain ⟨fuel, rfl⟩ := hfuel.pos image.extends_bounded
    have hmeets := ih (hfuel.next (hlinked.acyclic _) hlink)
    rw [meets, (parent?_eq_iff hlinked.distinctClasses).2 hlink]
    simp only [hmeets, Bool.or_true]

/-- The test for descendants finds all of them. -/
theorem isSubclass_of_derives (h : image.Derives a b) :
    image.isSubclass a b = true :=
  hlinked.meets_of_derives h (.of_lt _ (Nat.lt_succ_self _))

end Linked

/-- A lookup that finds a method of the image has found that of the nearest
class. -/
theorem nearest_of_resolveFrom {fuel index : Nat}
    (h : image.resolveFrom native r true fuel a = .ok (.method index)) :
    ∃ d m, image.Nearest r.methodId a d ∧ image.methods[index]? = some m ∧
      m.ref = ⟨d, r.methodId⟩ := by
  induction fuel generalizing a with
  | zero => cases h
  | succ fuel ih =>
    unfold resolveFrom at h
    split at h
    · cases h
    · split at h
      · rename_i found hfound
        cases h
        obtain ⟨m, hm, href⟩ := findMethod_some hfound
        exact ⟨a, m, .here (declares_of_findMethod hfound), hm, href⟩
      · rename_i hnone
        rw [findMethod_eq_none_iff] at hnone
        split at h
        · split at h
          · cases h
          · rename_i c hclass
            split at h
            · rename_i parent hparent
              obtain ⟨d, m, hnearest, hm⟩ := ih h
              obtain ⟨hmem, hid⟩ := class_mem hclass
              exact ⟨d, m, .up hnone ⟨c, hmem, hid, hparent⟩ hnearest, hm⟩
            · cases h
        · cases h

theorem nearest_of_resolve {index : Nat}
    (h : image.resolve native r true = .ok (.method index)) :
    ∃ d m, image.Nearest r.methodId r.classId d ∧
      image.methods[index]? = some m ∧ m.ref = ⟨d, r.methodId⟩ :=
  nearest_of_resolveFrom h

/-- If a lookup on a class finds a method, one on a descendant of the class
finds the nearest override. -/
theorem WellFormed.resolve_of_derives (hwell : image.WellFormed config)
    {index : Nat}
    (hfound : image.resolve config.native r true = .ok (.method index))
    (hderives : image.Derives a r.classId) :
    ∃ d k m, image.Nearest r.methodId a d ∧ image.methods[k]? = some m ∧
      m.ref = ⟨d, r.methodId⟩ ∧
      image.resolve config.native ⟨a, r.methodId⟩ true = .ok (.method k) := by
  obtain ⟨named, -, hnamed, -⟩ := nearest_of_resolve hfound
  obtain ⟨d, hnearest⟩ := nearest_of_derives hderives hnamed
  have hstart : image.Nearest (MethodRef.mk a r.methodId).methodId
    (MethodRef.mk a r.methodId).classId d := hnearest
  obtain ⟨k, m, hresolve, hentry, href⟩ :=
    hwell.linked.resolve_of_nearest hstart
  exact ⟨d, k, m, hnearest, hentry, href, hresolve⟩

end SlotVm.Image
