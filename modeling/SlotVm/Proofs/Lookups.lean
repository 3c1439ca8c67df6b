import SlotVm.Proofs.Resolution

/-!
# Lookups and the chain of parents

`Image.FindsInherited` says what a lookup with inheritance comes to, and
`Image.FindsOwn` what one on a class alone does.  They speak of declarations
and of the chain of parents, have no bound on walks, and name a fault where
nothing is found.  `Image.lookups_exact` says that in an image that passes its
check `Image.resolve` gives these outcomes and no others, and that
`Image.isSubclass` decides whether one class derives from another.

* For each outcome that the chain allows, the walk gives it: the nearest
  declaration (`Linked.resolveFrom_of_nearest`), a native class at the end of
  the chain (`Linked.resolveFrom_of_native`), or neither
  (`Linked.resolveFrom_unresolved`).
* Every chain allows some outcome (`Linked.exists_findsInherited`).  So a walk
  never gives one that the chain does not allow, and in particular it never
  gives up (`Linked.resolveFrom_iff`).

The walks may visit one class more than the image declares.  The lemmas ask
for no other bound (`Image.Suffices`), so a larger one changes nothing.
-/

namespace SlotVm.Image

open Relation

variable {image : Image} {config : Config} {native : NativeRange}
variable {r : MethodRef} {methodId a b d p : UInt16}
variable {o : Except Fault Resolved}

/-- The image has a class with this id. -/
def HasClass (image : Image) (a : UInt16) : Prop :=
  ∃ c ∈ image.classes, c.id = a

/-- What a lookup on a class and its ancestors comes to. -/
inductive FindsInherited (image : Image) (native : NativeRange)
    (r : MethodRef) : Except Fault Resolved → Prop where
  /-- The class itself is native. -/
  | named : native.Contains r.classId →
      FindsInherited image native r (.ok (.native r))
  /-- Some class of the chain declares the method.  The first one is meant. -/
  | nearest {d : UInt16} {index : Nat} {m : MethodDescriptor} :
      image.Nearest r.methodId r.classId d →
      image.methods[index]? = some m → m.ref = ⟨d, r.methodId⟩ →
      FindsInherited image native r (.ok (.method index))
  /-- No class declares the method, and the chain ends in a native one. -/
  | native {p : UInt16} : image.HasClass r.classId →
      (∀ d, ¬ image.Nearest r.methodId r.classId d) →
      image.Derives r.classId p → native.Contains p →
      FindsInherited image native r (.ok (.native ⟨p, r.methodId⟩))
  /-- No class declares the method, and none of them is native. -/
  | unresolved : image.HasClass r.classId →
      (∀ d, ¬ image.Nearest r.methodId r.classId d) →
      (∀ p, image.Derives r.classId p → ¬ native.Contains p) →
      FindsInherited image native r (.error (.unresolvedMethod r))
  /-- There is no such class. -/
  | unknown : ¬ native.Contains r.classId → ¬ image.HasClass r.classId →
      FindsInherited image native r (.error (.unknownClass r.classId))

/-- What a lookup on a class alone comes to. -/
inductive FindsOwn (image : Image) (native : NativeRange) (r : MethodRef) :
    Except Fault Resolved → Prop where
  | named : native.Contains r.classId →
      FindsOwn image native r (.ok (.native r))
  | own {index : Nat} {m : MethodDescriptor} :
      image.methods[index]? = some m → m.ref = r →
      FindsOwn image native r (.ok (.method index))
  | unresolved : ¬ native.Contains r.classId →
      ¬ image.Declares r.methodId r.classId →
      FindsOwn image native r (.error (.unresolvedMethod r))

/-- Every chain allows some outcome, -/
theorem exists_findsInherited (image : Image) (native : NativeRange)
    (r : MethodRef) : ∃ o, image.FindsInherited native r o := by
  by_cases hnative : native.Contains r.classId
  · exact ⟨_, .named hnative⟩
  by_cases hclass : image.HasClass r.classId
  · by_cases hsome : ∃ d, image.Nearest r.methodId r.classId d
    · obtain ⟨d, hnearest⟩ := hsome
      obtain ⟨m, hm, href⟩ := hnearest.declares
      obtain ⟨index, hentry⟩ := Array.getElem?_of_mem hm
      exact ⟨_, .nearest hnearest hentry href⟩
    · have hnone := not_exists.1 hsome
      by_cases hend : ∃ p, image.Derives r.classId p ∧ native.Contains p
      · obtain ⟨p, hderives, hforeign⟩ := hend
        exact ⟨_, .native hclass hnone hderives hforeign⟩
      · exact ⟨_, .unresolved hclass hnone fun p hp hn => hend ⟨p, hp, hn⟩⟩
  · exact ⟨_, .unknown hnative hclass⟩

/-- and so does every class. -/
theorem exists_findsOwn (image : Image) (native : NativeRange)
    (r : MethodRef) : ∃ o, image.FindsOwn native r o := by
  by_cases hnative : native.Contains r.classId
  · exact ⟨_, .named hnative⟩
  by_cases hown : image.Declares r.methodId r.classId
  · obtain ⟨m, hm, href⟩ := hown
    obtain ⟨index, hentry⟩ := Array.getElem?_of_mem hm
    exact ⟨_, .own hentry href⟩
  · exact ⟨_, .unresolved hnative hown⟩

/-! ## Ends of walks -/

/-- At a native class a walk is at its end, whether it inherits or not. -/
theorem resolveFrom_native {inherit : Bool} (h : native.Contains a)
    (fuel : Nat) :
    image.resolveFrom native r inherit (fuel + 1) a =
      .ok (.native ⟨a, r.methodId⟩) := by
  rw [resolveFrom, if_pos h]

/-- A class that is not found has no methods either. -/
theorem HasClass.class?_eq_none (h : ¬ image.HasClass a) :
    image.class? a = none :=
  Option.not_isSome_iff_eq_none.1 (mt class?_isSome_iff.1 h)

namespace Linked

variable (hlinked : image.Linked native)

include hlinked

/-- A walk goes up to a native class if no class before it declares the
method. -/
theorem resolveFrom_of_native (hderives : image.Derives a p)
    (hnone : ∀ d, ¬ image.Nearest r.methodId a d) (hnative : native.Contains p)
    {fuel : Nat} (hfuel : image.Suffices fuel a) :
    image.resolveFrom native r true fuel a =
      .ok (.native ⟨p, r.methodId⟩) := by
  induction hderives using ReflTransGen.head_induction_on generalizing fuel with
  | refl =>
    obtain ⟨fuel, rfl⟩ := hfuel.pos image.extends_bounded
    exact resolveFrom_native hnative fuel
  | @head a b hlink _ ih =>
    obtain ⟨fuel, rfl⟩ := hfuel.pos image.extends_bounded
    have hown : ¬ image.Declares r.methodId a := fun h => hnone a (.here h)
    rw [hlinked.resolveFrom_of_extends hown hlink]
    exact ih (fun d h => hnone d (.up hown hlink h))
      (hfuel.next (hlinked.acyclic _) hlink)

/-- A walk comes to the end of a chain that declares nothing. -/
theorem resolveFrom_unresolved {fuel : Nat} (hclass : image.HasClass a)
    (hnone : ∀ d, ¬ image.Nearest r.methodId a d)
    (hforeign : ∀ p, image.Derives a p → ¬ native.Contains p)
    (hfuel : image.Suffices fuel a) :
    image.resolveFrom native r true fuel a = .error (.unresolvedMethod r) := by
  induction fuel generalizing a with
  | zero =>
    obtain ⟨rest, hrest⟩ := hfuel.pos image.extends_bounded
    cases hrest
  | succ fuel ih =>
    have hown : ¬ image.Declares r.methodId a := fun h => hnone a (.here h)
    obtain ⟨c, hc, rfl⟩ := hclass
    cases hparent : c.parent with
    | none =>
      rw [resolveFrom, if_neg (hforeign c.id .refl)]
      simp only [findMethod_eq_none_iff.2 hown, if_true,
        class?_of_mem hlinked.distinctClasses hc, hparent]
    | some b =>
      have hlink : image.Extends c.id b := ⟨c, hc, rfl, hparent⟩
      rw [hlinked.resolveFrom_of_extends hown hlink]
      -- The parent is not native, so the image has it.
      have hnext : image.HasClass b :=
        (hlinked.parents c hc b hparent).resolve_left
          (hforeign b (.single hlink))
      exact ih hnext (fun d h => hnone d (.up hown hlink h))
        (fun p h => hforeign p (.head hlink h))
        (hfuel.next (hlinked.acyclic _) hlink)

/-- A walk cannot begin at a class that the image does not have. -/
theorem resolveFrom_unknown (hnative : ¬ native.Contains a)
    (hclass : ¬ image.HasClass a) (fuel : Nat) :
    image.resolveFrom native r true (fuel + 1) a =
      .error (.unknownClass a) := by
  have hown : ¬ image.Declares r.methodId a := by
    intro h
    obtain ⟨m, hm, href⟩ := h
    have hid : m.classId = a := congrArg MethodRef.classId href
    exact hclass (hid ▸ hlinked.declared m hm)
  rw [resolveFrom, if_neg hnative]
  simp only [findMethod_eq_none_iff.2 hown, if_true,
    HasClass.class?_eq_none hclass]

/-! ## Outcomes -/

/-- A walk gives every outcome that the chain allows. -/
theorem resolveFrom_of_finds (h : image.FindsInherited native r o)
    {fuel : Nat} (hfuel : image.classes.length < fuel) :
    image.resolveFrom native r true fuel r.classId = o := by
  have hsuffices : image.Suffices fuel r.classId := .of_lt _ hfuel
  obtain ⟨rest, rfl⟩ := hsuffices.pos image.extends_bounded
  cases h with
  | named hnative => exact resolveFrom_native hnative rest
  | nearest hnearest hentry href =>
    exact hlinked.resolveFrom_of_nearest hnearest hentry href hsuffices
  | native _ hnone hderives hnative =>
    exact hlinked.resolveFrom_of_native hderives hnone hnative hsuffices
  | unresolved hclass hnone hforeign =>
    exact hlinked.resolveFrom_unresolved hclass hnone hforeign hsuffices
  | unknown hnative hclass =>
    exact hlinked.resolveFrom_unknown hnative hclass rest

/-- A walk gives an outcome exactly if the chain allows it. -/
theorem resolveFrom_iff {fuel : Nat} (hfuel : image.classes.length < fuel) :
    image.resolveFrom native r true fuel r.classId = o ↔
      image.FindsInherited native r o := by
  refine ⟨?_, fun h => hlinked.resolveFrom_of_finds h hfuel⟩
  intro h
  obtain ⟨found, hfinds⟩ := exists_findsInherited image native r
  rw [← h, hlinked.resolveFrom_of_finds hfinds hfuel]
  exact hfinds

theorem resolveFrom_of_findsOwn (h : image.FindsOwn native r o)
    (fuel : Nat) :
    image.resolveFrom native r false (fuel + 1) r.classId = o := by
  cases h with
  | named hnative => exact resolveFrom_native hnative fuel
  | own hentry href => exact hlinked.resolveFrom_own hentry href fuel
  | unresolved hnative hown =>
    rw [resolveFrom, if_neg hnative]
    simp only [findMethod_eq_none_iff.2 hown, Bool.false_eq_true, if_false]

/-- A lookup on a class alone is over after one step. -/
theorem resolveFrom_own_iff (fuel : Nat) :
    image.resolveFrom native r false (fuel + 1) r.classId = o ↔
      image.FindsOwn native r o := by
  refine ⟨?_, fun h => hlinked.resolveFrom_of_findsOwn h fuel⟩
  intro h
  obtain ⟨found, hfinds⟩ := exists_findsOwn image native r
  rw [← h, hlinked.resolveFrom_of_findsOwn hfinds fuel]
  exact hfinds

/-- The test for descendants is exact. -/
theorem meets_iff {fuel : Nat} (hfuel : image.classes.length < fuel) :
    image.meets b fuel a = true ↔ image.Derives a b :=
  ⟨derives_of_meets, fun h => hlinked.meets_of_derives h (.of_lt a hfuel)⟩

end Linked

/-- In an image that passes its check, lookups and tests for descendants go by
the chain of parents exactly.  A class derives from another if the test says
so, a lookup comes to what the chain allows and to nothing else, and it never
finds the chain to be cyclic.  The walks visit one class more than the image
declares at most, and no larger number would change anything. -/
theorem lookups_exact (h : image.check config = .ok ()) (r : MethodRef) :
    (∀ ancestor, image.isSubclass r.classId ancestor = true ↔
      image.Derives r.classId ancestor) ∧
    (∀ o, image.resolve config.native r true = o ↔
      image.FindsInherited config.native r o) ∧
    (∀ o, image.resolve config.native r false = o ↔
      image.FindsOwn config.native r o) ∧
    (∀ inherit c, image.resolve config.native r inherit ≠
      .error (.invalidImage (.cyclicParents c))) ∧
    ∀ fuel, image.classes.length < fuel →
      (∀ inherit, image.resolveFrom config.native r inherit fuel r.classId =
        image.resolve config.native r inherit) ∧
      ∀ ancestor, image.meets ancestor fuel r.classId =
        image.isSubclass r.classId ancestor := by
  have hlinked := linked_of_check h
  have hfuel : image.classes.length < image.classes.length + 1 :=
    Nat.lt_succ_self _
  have hinherited : ∀ o, image.resolve config.native r true = o ↔
      image.FindsInherited config.native r o :=
    fun _ => hlinked.resolveFrom_iff hfuel
  have hown : ∀ o, image.resolve config.native r false = o ↔
      image.FindsOwn config.native r o :=
    fun _ => hlinked.resolveFrom_own_iff _
  refine ⟨fun _ => hlinked.meets_iff hfuel, hinherited, hown, ?_, ?_⟩
  · intro inherit c hcyclic
    cases inherit with
    | true => cases (hinherited _).1 hcyclic
    | false => cases (hown _).1 hcyclic
  · intro fuel hlarger
    constructor
    · intro inherit
      cases inherit with
      | true => exact (hlinked.resolveFrom_iff hlarger).2 ((hinherited _).1 rfl)
      | false =>
        have hpos : 0 < fuel := Nat.zero_lt_of_lt hlarger
        obtain ⟨rest, rfl⟩ := Nat.exists_eq_add_one.2 hpos
        exact (hlinked.resolveFrom_own_iff rest).2 ((hown _).1 rfl)
    · intro ancestor
      rw [Bool.eq_iff_iff, hlinked.meets_iff hlarger]
      exact (hlinked.meets_iff hfuel).symm

/-- A lookup goes up the longest chain that there can be, to the native class
at its end. -/
theorem lookups_exact_chained :
    (chained 16).check .unix = .ok () ∧ (chained 16).Derives 0 16 ∧
      (chained 16).FindsInherited Config.unix.native ⟨0, 7⟩
        (.ok (.native ⟨16, 7⟩)) ∧
      (chained 16).FindsOwn Config.unix.native ⟨0, 7⟩
        (.error (.unresolvedMethod ⟨0, 7⟩)) := by
  have hcheck : (chained 16).check .unix = .ok () := by decide +kernel
  have hexact := lookups_exact hcheck ⟨0, 7⟩
  obtain ⟨hsubclass, hinherited, hown, -, -⟩ := hexact
  exact ⟨hcheck, (hsubclass 16).1 (by decide +kernel),
    (hinherited _).1 (by decide +kernel), (hown _).1 (by decide +kernel)⟩

end SlotVm.Image
