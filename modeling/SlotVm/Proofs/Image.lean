import SlotVm.Image.Check
import SlotVm.Image.Resolve
import SlotVm.Proofs.Action

/-!
# Checked images

An image passes the check exactly if its code fits, no class and no method
has a defect, and the entry point has none (`check_ok_iff`).  Each kind of
defect has one lemma that says when it is absent.

`Image.Checked` collects what the machine relies on later, and
`checked_of_check` reads it off the check.  There are two groups of lemmas
about a checked image.

* Lookups.  The walk of `Image.resolve` comes to an end in front of its
  bound, because the check has made the same walk (`Checked.resolve_error`).
  So a lookup fails for a method that nobody declares, or for a class that is
  named from outside.
* Methods.  A method with code has its code (`Checked.codeOf_ok`), and the
  entry point is one of them.
-/

namespace SlotVm.Image

variable {image : Image} {config : Config} {native : NativeRange}
variable {r : MethodRef} {inherit : Bool} {e : Fault} {index : Nat}

/-! ## What the check establishes -/

/-- The image fits the configuration. -/
structure Checked (image : Image) (config : Config) : Prop where
  below : ∀ c ∈ image.classes, ¬ config.native.Contains c.id
  parents : ∀ c ∈ image.classes, ∀ parent, c.parent = some parent →
    config.native.Contains parent ∨ (image.class? parent).isSome = true
  acyclic : ∀ c ∈ image.classes, image.reachesRoot c.id = true
  declared : ∀ m ∈ image.methods, (image.class? m.classId).isSome = true
  bodies : ∀ m ∈ image.methods, image.bodyDefect? config.storageFlag m = none
  entry : ∃ m, image.methods.find? (·.ref == image.main) = some m ∧
    m.isNative = false

/-- A list has no defect if none of its entries has one, given the entries in
front of it. -/
theorem firstDefect_none_iff {α : Type}
    {defect? : List α → α → Option ImageDefect} {entries : List α} :
    firstDefect? defect? entries = none ↔
      ∀ i (hi : i < entries.length),
        defect? (entries.take i) entries[i] = none := by
  unfold firstDefect?
  rw [List.findSome?_eq_none_iff]
  constructor
  · intro h i hi
    apply h (entries[i], i)
    rw [List.mk_mem_zipIdx_iff_getElem?]
    exact List.getElem?_eq_getElem hi
  · rintro h ⟨entry, i⟩ hentry
    rw [List.mk_mem_zipIdx_iff_getElem?] at hentry
    obtain ⟨hi, rfl⟩ := List.getElem?_eq_some_iff.1 hentry
    exact h i hi

/-- Without a defect, no entry of the list has one. -/
theorem firstDefect_none {α : Type}
    {defect? : List α → α → Option ImageDefect} {entries : List α}
    (h : firstDefect? defect? entries = none) {entry : α}
    (hentry : entry ∈ entries) :
    ∃ earlier, defect? earlier entry = none := by
  obtain ⟨i, hi, rfl⟩ := List.getElem_of_mem hentry
  exact ⟨_, firstDefect_none_iff.1 h i hi⟩

/-- Nothing in a list has the key. -/
theorem any_key_eq_false_iff {α κ : Type} [DecidableEq κ] {key : α → κ}
    {k : κ} {entries : List α} :
    ¬ entries.any (key · == k) = true ↔ ∀ entry ∈ entries, key entry ≠ k := by
  rw [List.any_eq_true]
  constructor
  · intro h entry hentry heq
    exact h ⟨entry, hentry, beq_iff_eq.2 heq⟩
  · intro h hany
    obtain ⟨entry, hentry, heq⟩ := hany
    exact h entry hentry (beq_iff_eq.1 heq)

/-- A parent without a defect. -/
theorem parentDefect_none_iff {c : ClassDescriptor} :
    image.parentDefect? native c = none ↔ ∀ parent, c.parent = some parent →
      native.Contains parent ∨ (image.class? parent).isSome = true := by
  unfold parentDefect?
  cases c.parent with
  | none => simp
  | some parent =>
    simp only [ite_eq_left_iff, reduceCtorEq, imp_false, Decidable.not_not,
      Option.some.injEq]
    exact ⟨fun h _ heq => heq ▸ h, fun h => h parent rfl⟩

/-- A class without a defect. -/
theorem classDefect_none_iff {earlier : List ClassDescriptor}
    {c : ClassDescriptor} :
    image.classDefect? native earlier c = none ↔
      ¬ native.Contains c.id ∧ (∀ d ∈ earlier, d.id ≠ c.id) ∧
        image.parentDefect? native c = none ∧
        image.reachesRoot c.id = true := by
  unfold classDefect?
  rw [← any_key_eq_false_iff]
  split
  · rename_i hnative
    exact iff_of_false (by simp) fun h => h.1 hnative
  · rename_i hbelow
    split
    · rename_i hearlier
      exact iff_of_false (by simp) fun h => h.2.1 hearlier
    · rename_i hnew
      rw [Option.or_eq_none_iff]
      cases image.reachesRoot c.id <;> simp [hbelow, hnew]

/-- The code of a method lies in the code region. -/
theorem bodyDefect_none_iff {flag : UInt32} {m : MethodDescriptor} :
    image.bodyDefect? flag m = none ↔ ∀ address len,
      m.body = .bytecode address len →
      (Address.decode flag address).offset.toNat + len.toNat ≤
        image.code.size := by
  unfold bodyDefect? codeOf
  cases m.body with
  | native => simp
  | bytecode address len =>
    by_cases hinside : (Address.decode flag address).offset.toNat + len.toNat ≤
        image.code.size
    · simp [hinside]
    · simp [hinside]

/-- A method without a defect. -/
theorem methodDefect_none_iff {earlier : List MethodDescriptor}
    {m : MethodDescriptor} :
    image.methodDefect? config earlier m = none ↔
      config.native.layout.Fits m.ref ∧
        (image.class? m.classId).isSome = true ∧
        (∀ n ∈ earlier, n.ref ≠ m.ref) ∧
        image.bodyDefect? config.storageFlag m = none := by
  unfold methodDefect?
  rw [← any_key_eq_false_iff, ← Option.not_isNone, Bool.not_eq_true']
  simp only
  split
  · rename_i hwide
    exact iff_of_false (by simp) fun h => hwide h.1
  · rename_i hfits
    split
    · rename_i horphan
      exact iff_of_false (by simp) fun h => by simp [horphan] at h
    · rename_i hdeclared
      split
      · rename_i hearlier
        exact iff_of_false (by simp) fun h => h.2.2.1 hearlier
      · rename_i hnew
        simp [Decidable.not_not.1 hfits, hdeclared, hnew]

/-- The entry point is found, and is a method with code. -/
theorem entryDefect_none_iff : image.entryDefect? = none ↔
    ∃ m, image.methods.find? (·.ref == image.main) = some m ∧
      m.isNative = false := by
  unfold entryDefect?
  cases image.methods.find? (·.ref == image.main) with
  | none => simp
  | some m => cases hnative : m.isNative <;> simp [hnative]

/-- An image passes the check if no part of it has a defect. -/
theorem check_ok_iff : image.check config = .ok () ↔
    image.code.size ≤ config.codeSize ∧
      firstDefect? (image.classDefect? config.native) image.classes = none ∧
      firstDefect? (image.methodDefect? config) image.methods.toList = none ∧
      image.entryDefect? = none := by
  have hcheck : image.check config = .ok () ↔ image.defect? config = none := by
    unfold check
    cases image.defect? config <;> simp
  rw [hcheck]
  unfold defect?
  split
  · rename_i hlong
    exact iff_of_false (by simp) fun h => absurd h.1 (Nat.not_le.2 hlong)
  · rename_i hcode
    rw [Option.or_eq_none_iff, Option.or_eq_none_iff, and_assoc]
    simp [Nat.not_lt.1 hcode]

/-- An image that passes the check is checked. -/
theorem checked_of_check (h : image.check config = .ok ()) :
    image.Checked config := by
  obtain ⟨-, hclasses, hmethods, hentry⟩ := check_ok_iff.1 h
  have hclass : ∀ c ∈ image.classes, ¬ config.native.Contains c.id ∧
      image.parentDefect? config.native c = none ∧
      image.reachesRoot c.id = true := by
    intro c hc
    obtain ⟨earlier, hd⟩ := firstDefect_none hclasses hc
    obtain ⟨hbelow, -, hparent, hroot⟩ := classDefect_none_iff.1 hd
    exact ⟨hbelow, hparent, hroot⟩
  have hmethod : ∀ m ∈ image.methods,
      (image.class? m.classId).isSome = true ∧
      image.bodyDefect? config.storageFlag m = none := by
    intro m hm
    obtain ⟨earlier, hd⟩ := firstDefect_none hmethods (Array.mem_toList_iff.2 hm)
    obtain ⟨-, hdeclared, -, hbody⟩ := methodDefect_none_iff.1 hd
    exact ⟨hdeclared, hbody⟩
  exact {
    below := fun c hc => (hclass c hc).1
    parents := fun c hc => parentDefect_none_iff.1 (hclass c hc).2.1
    acyclic := fun c hc => (hclass c hc).2.2
    declared := fun m hm => (hmethod m hm).1
    bodies := fun m hm => (hmethod m hm).2
    entry := entryDefect_none_iff.1 hentry }

/-! ## Lookups -/

theorem class_mem {id : UInt16} {c : ClassDescriptor}
    (h : image.class? id = some c) : c ∈ image.classes ∧ c.id = id := by
  unfold class? at h
  have hid := List.find?_some (p := fun d : ClassDescriptor => d.id == id) h
  exact ⟨List.mem_of_find?_eq_some h, beq_iff_eq.1 hid⟩

theorem method_of_entry {m : MethodDescriptor}
    (h : image.methods[index]? = some m) : image.method index = .ok m := by
  rw [method, h]

/-- The method that a lookup on one class finds. -/
theorem findMethod_some (h : image.findMethod? r = some index) :
    ∃ m, image.methods[index]? = some m ∧ m.ref = r := by
  unfold findMethod? at h
  rw [Array.findIdx?_eq_some_iff_getElem] at h
  obtain ⟨hlt, href, -⟩ := h
  exact ⟨_, Array.getElem?_eq_getElem hlt, beq_iff_eq.1 href⟩

/-- A lookup finds methods of the image. -/
theorem resolveFrom_method {fuel : Nat} {current : UInt16}
    (h : image.resolveFrom native r inherit fuel current = .ok (.method index)) :
    ∃ m, image.methods[index]? = some m := by
  induction fuel generalizing current with
  | zero => cases h
  | succ fuel ih =>
    unfold resolveFrom at h
    split at h
    · cases h
    · split at h
      · rename_i found hfound
        cases h
        exact (findMethod_some hfound).imp fun _ hm => hm.1
      · split at h
        · split at h
          · cases h
          · split at h
            · exact ih h
            · cases h
        · cases h

namespace Checked

variable (hc : image.Checked config)

include hc

theorem declared_below {id : UInt16}
    (h : (image.class? id).isSome = true) : ¬ config.native.Contains id := by
  obtain ⟨c, hclass⟩ := Option.isSome_iff_exists.1 h
  obtain ⟨hmem, rfl⟩ := class_mem hclass
  exact hc.below c hmem

/-- Nothing is declared on a class that the image does not have. -/
theorem findMethod_none {id methodId : UInt16}
    (h : image.class? id = none) : image.findMethod? ⟨id, methodId⟩ = none := by
  cases hfound : image.findMethod? ⟨id, methodId⟩ with
  | none => rfl
  | some index =>
    obtain ⟨m, hm, href⟩ := findMethod_some hfound
    have hdeclared := hc.declared m (Array.mem_of_getElem? hm)
    have hid : m.classId = id := congrArg MethodRef.classId href
    rw [hid, h] at hdeclared
    cases hdeclared

/-- A walk that is known to end does not run out of fuel.  Both walks go up
by one class with each unit. -/
theorem resolveFrom_error {fuel : Nat} {current : UInt16}
    (hends : image.ends (fuel + 1) (some current) = true)
    (hknown : config.native.Contains current ∨
      (image.class? current).isSome = true)
    (h : image.resolveFrom config.native r inherit fuel current = .error e) :
    e = .unresolvedMethod r := by
  induction fuel generalizing current with
  | zero => cases hends
  | succ fuel ih =>
    unfold resolveFrom at h
    split at h
    · cases h
    · rename_i hbelow
      split at h
      · cases h
      · split at h
        · split at h
          · rename_i hnone
            rw [hnone] at hknown
            rcases hknown with hnative | hdeclared
            · exact absurd hnative hbelow
            · cases hdeclared
          · rename_i c hclass
            split at h
            · rename_i parent hparent
              have hup : image.parent? current = some parent := by
                unfold parent?
                rw [hclass]
                exact hparent
              unfold ends at hends
              rw [hup] at hends
              exact ih hends (hc.parents c (class_mem hclass).1 parent hparent) h
            · cases h
              rfl
        · cases h
          rfl

/-- A lookup fails for a method that nobody declares, or for a class that
the image does not have. -/
theorem resolve_error
    (h : image.resolve config.native r inherit = .error e) :
    e = .unresolvedMethod r ∨
      image.class? r.classId = none ∧ e = .unknownClass r.classId := by
  unfold resolve at h
  cases hclass : image.class? r.classId with
  | some c =>
    obtain ⟨hmem, hid⟩ := class_mem hclass
    have hends := hc.acyclic c hmem
    rw [hid] at hends
    exact .inl (hc.resolveFrom_error hends (.inr (by rw [hclass]; rfl)) h)
  | none =>
    unfold resolveFrom at h
    simp only [hc.findMethod_none hclass, hclass] at h
    split at h
    · cases h
    · split at h
      · cases h
        exact .inr ⟨rfl, rfl⟩
      · cases h
        exact .inl rfl

/-! ## Methods -/

/-- A method with code has its code. -/
theorem codeOf_ok {m : MethodDescriptor} {address len : UInt32}
    (hm : m ∈ image.methods) (hbody : m.body = .bytecode address len) :
    ∃ code, image.codeOf config.storageFlag m = .ok code ∧
      code.size = len.toNat := by
  have hdefect := hc.bodies m hm
  unfold bodyDefect? at hdefect
  cases hcode : image.codeOf config.storageFlag m with
  | error d =>
    rw [hbody, hcode] at hdefect
    cases hdefect
  | ok code =>
    refine ⟨code, rfl, ?_⟩
    unfold codeOf at hcode
    rw [hbody] at hcode
    simp only at hcode
    split at hcode
    · cases hcode
      rw [Array.size_extract]
      omega
    · cases hcode

/-- The entry point is found on its class, and is a method with code. -/
theorem resolve_main : ∃ index m,
    image.resolve config.native image.main false = .ok (.method index) ∧
      image.methods[index]? = some m ∧ m.isNative = false := by
  obtain ⟨m, hm, hnative⟩ := hc.entry
  obtain ⟨href, index, hlt, rfl, hfirst⟩ := Array.find?_eq_some_iff_getElem.1 hm
  have hentry : image.methods[index]? = some image.methods[index] :=
    Array.getElem?_eq_getElem hlt
  refine ⟨index, _, ?_, hentry, hnative⟩
  have hfound : image.findMethod? image.main = some index := by
    unfold findMethod?
    rw [Array.findIdx?_eq_some_iff_getElem]
    refine ⟨hlt, href, ?_⟩
    intro j hj
    have hother := hfirst j hj
    simpa using hother
  have hclass : (image.methods[index]).classId = image.main.classId :=
    congrArg MethodRef.classId (beq_iff_eq.1 href)
  have hbelow := hc.declared_below
    (hc.declared _ (Array.mem_of_getElem? hentry))
  rw [hclass] at hbelow
  unfold resolve resolveFrom
  rw [if_neg hbelow]
  simp only [hfound]

end Checked

end SlotVm.Image
