import SlotVm.Proofs.Image
import SlotVm.Proofs.Walks

/-!
# Ancestors

The classes of an image and their parent links form a graph, in which a class
has at most one parent if no two classes share an id (`parent?_eq_iff`).
`Image.Extends` is one link, and the ancestors of a class are what its
transitive closure reaches.

The check of an image walks up from every class and gives up after a number
of links that depends on the number of classes.  `reachesRoot_iff_acyclic`
says that this decides whether the links have a cycle.

* A walk that meets a cycle stays on it and never comes to an end, whatever
  its bound is (`ends_of_cycle`).
* A walk without a cycle never meets a class twice (`Walk.Trail`).  So the
  classes behind it are at most those of the image, and the bound leaves two
  more steps, for a native class and for the end (`ends_of_acyclic`).
-/

namespace SlotVm.Image

open Relation

variable {image : Image} {a b : UInt16}

/-- The image has a class `a` whose parent is `b`. -/
def Extends (image : Image) (a b : UInt16) : Prop :=
  ∃ c ∈ image.classes, c.id = a ∧ c.parent = some b

/-- No class is an ancestor of itself. -/
def Acyclic (image : Image) : Prop := ∀ a, ¬ TransGen image.Extends a a

/-- No two classes share an id. -/
def DistinctClasses (image : Image) : Prop :=
  (image.classes.map (·.id)).Nodup

/-! ## Links -/

/-- A class is found if there is one with the id. -/
theorem class?_isSome_iff :
    (image.class? a).isSome = true ↔ ∃ c ∈ image.classes, c.id = a := by
  unfold class?
  rw [List.find?_isSome]
  simp only [beq_iff_eq]

/-- Where no two classes share an id, each class is the one that is found. -/
theorem class?_of_mem (hdistinct : image.DistinctClasses)
    {c : ClassDescriptor} (hc : c ∈ image.classes) :
    image.class? c.id = some c := by
  obtain ⟨d, hd⟩ := Option.isSome_iff_exists.1
    (class?_isSome_iff.2 ⟨c, hc, rfl⟩)
  obtain ⟨hmem, hid⟩ := class_mem hd
  rw [hd, List.inj_on_of_nodup_map hdistinct hmem hc hid]

/-- A parent that is looked up is a link. -/
theorem extends_of_parent? (h : image.parent? a = some b) :
    image.Extends a b := by
  unfold parent? at h
  obtain ⟨c, hc, hparent⟩ := Option.bind_eq_some_iff.1 h
  obtain ⟨hmem, hid⟩ := class_mem hc
  exact ⟨c, hmem, hid, hparent⟩

/-- The parent that is looked up is the one of a link. -/
theorem parent?_eq_iff (hdistinct : image.DistinctClasses) :
    image.parent? a = some b ↔ image.Extends a b := by
  refine ⟨extends_of_parent?, ?_⟩
  intro h
  obtain ⟨c, hc, rfl, hparent⟩ := h
  unfold parent?
  rw [class?_of_mem hdistinct hc]
  exact hparent

/-- The class is `b` or one of its descendants. -/
def Derives (image : Image) (a b : UInt16) : Prop :=
  ReflTransGen image.Extends a b

/-- A walk up from a class meets its ancestors only. -/
theorem derives_of_meets {fuel : Nat} (h : image.meets b fuel a = true) :
    image.Derives a b := by
  induction fuel generalizing a with
  | zero => cases h
  | succ fuel ih =>
    rw [meets, Bool.or_eq_true] at h
    rcases h with heq | h
    · rw [eq_of_beq heq]
      exact .refl
    · split at h
      · rename_i parent hparent
        exact .head (extends_of_parent? hparent) (ih h)
      · cases h

/-- A class has one parent at most. -/
theorem Extends.unique (hdistinct : image.DistinctClasses) {b' : UInt16}
    (h : image.Extends a b) (h' : image.Extends a b') : b = b' := by
  rw [← parent?_eq_iff hdistinct] at h h'
  exact Option.some.inj (h.symm.trans h')

/-! ## Walks -/

/-- A walk from a class on a cycle does not end. -/
theorem ends_of_cycle (hdistinct : image.DistinctClasses)
    (hcycle : TransGen image.Extends a a) (fuel : Nat) :
    image.ends fuel (some a) = false := by
  induction fuel generalizing a with
  | zero => rfl
  | succ fuel ih =>
    obtain ⟨b, hlink, hback⟩ := TransGen.head'_iff.1 hcycle
    unfold ends
    rw [(parent?_eq_iff hdistinct).2 hlink]
    exact ih (.tail' hback hlink)

/-- No more classes have a parent than the image declares. -/
theorem extends_bounded (image : Image) :
    Walk.Bounded image.Extends image.classes.length := by
  refine ⟨image.classes.map (·.id), List.length_map _, ?_⟩
  rintro a b ⟨c, hc, hid, -⟩
  exact List.mem_map.2 ⟨c, hc, hid⟩

/-- A walk that has come to `a` may still visit all classes that it has not
met. -/
def Suffices (image : Image) (fuel : Nat) (a : UInt16) : Prop :=
  Walk.Suffices image.Extends image.classes.length fuel a

/-- A walk without a cycle ends if it may go two steps further than there can
be other classes. -/
theorem ends_of_acyclic (hdistinct : image.DistinctClasses)
    (hacyclic : image.Acyclic) (fuel : Nat) {seen : List UInt16}
    (htrail : Walk.Trail image.Extends seen a)
    (hfuel : image.classes.length ≤ seen.length + fuel) :
    image.ends (fuel + 2) (some a) = true := by
  -- Each link uses up one step and puts one more class on the trail, so the
  -- bound on their sum is kept.
  induction fuel generalizing a seen with
  | zero =>
    unfold ends
    cases hparent : image.parent? a with
    | none => rfl
    | some b =>
      have hlink := (parent?_eq_iff hdistinct).1 hparent
      have hlength :=
        (htrail.cons (hacyclic a) hlink).length_le image.extends_bounded
      rw [List.length_cons] at hlength
      omega
  | succ fuel ih =>
    unfold ends
    cases hparent : image.parent? a with
    | none => rfl
    | some b =>
      have hlink := (parent?_eq_iff hdistinct).1 hparent
      apply ih (htrail.cons (hacyclic a) hlink)
      rw [List.length_cons]
      omega

/-- The bounded walks of a check end exactly if there is no cycle. -/
theorem reachesRoot_iff_acyclic (hdistinct : image.DistinctClasses) :
    (∀ c ∈ image.classes, image.reachesRoot c.id = true) ↔ image.Acyclic := by
  constructor
  · intro h a hcycle
    obtain ⟨-, ⟨c, hc, rfl, -⟩, -⟩ := TransGen.head'_iff.1 hcycle
    have hends := h c hc
    unfold reachesRoot at hends
    rw [ends_of_cycle hdistinct hcycle] at hends
    cases hends
  · intro hacyclic c _
    apply ends_of_acyclic hdistinct hacyclic image.classes.length
      (.nil image.Extends c.id)
    exact Nat.le_add_left _ _

end SlotVm.Image
