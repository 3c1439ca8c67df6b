import SlotVm.Proofs.Image
import SlotVm.Proofs.Store.Data
import SlotVm.Proofs.Store.Native

/-!
# Instructions that look at the program

Constants, new arrays and objects, and the choice of the method of a virtual
call depend on the image and the configuration besides the store.  Their
faults depend on them too: each statement here asks for exactly the faults
that its instruction can raise besides the common ones.

The lookup for a virtual call starts at the class of an object of the heap.
The store is sound, so the image has this class, and the lookup cannot fail
for an unknown class any more.
-/

namespace SlotVm

/-- A lookup has found a method of a native class, or one that the image
has. -/
def Resolved.Present (image : Image) : Resolved → Prop
  | .native _ => True
  | .method index => ∃ method, image.methods[index]? = some method

/-- A lookup of a checked image finds what is there. -/
theorem Image.resolve_present {image : Image} {native : NativeRange}
    {r : MethodRef} {inherit : Bool} {found : Resolved}
    (h : image.resolve native r inherit = .ok found) :
    found.Present image := by
  cases found with
  | native r' => trivial
  | method index => exact resolveFrom_method h

namespace Store.Ready

open SlotVm.Action

variable {δ : Type} {p : Program} {K : Value → Prop}
variable {statics : UInt16} {s : Store δ} {F : Fault → Prop}
variable (h : Ready p K statics s F)

include h

/-- The feature check of the instructions that may need floats. -/
theorem needFloats (op : Opcode) :
    Ends (Machine.needFloats p.config op) s
      (fun _ u => u = s ∧ p.config.features.float = true)
      (Stopped p K s F) := by
  unfold Machine.needFloats
  split
  · rename_i hfloat
    exact Ends.pure ⟨rfl, hfloat⟩
  · exact Ends.throw ⟨h.quiet_self, h.common _ trivial⟩

theorem loadConstant (index : UInt8)
    (hF : p.image.constants[index.toNat]? = none →
      F (.invalidConstant index.toNat)) :
    Ends (Machine.loadConstant p index) s (fun _ u => Quiet p K s u)
      (Stopped p K s F) := by
  unfold Machine.loadConstant Image.constant
  cases hconstant : p.image.constants[index.toNat]? with
  | none => exact ⟨h.quiet_self, hF hconstant⟩
  | some c =>
    cases c with
    | int n => exact h.pushInt n h.quiet_self
    | float x =>
      refine (h.needFloats _).bind ?_
      intro _ u hend
      obtain ⟨rfl, hfloat⟩ := hend
      exact (h.push h.quiet_self (.float x (.inl hfloat))).imp
        fun _ _ hu => hu.1
    | str text =>
      have hpooled : p.image.constants[index.toUInt16.toNat]? =
          some (.str text) := by
        rw [UInt8.toNat_toUInt16]
        exact hconstant
      exact (h.push h.quiet_self (.pooled hpooled)).imp fun _ _ hu => hu.1

theorem newArrayOf (typeCode : UInt8)
    (hF : ArrayKind.ofTypeCode? typeCode = none →
      F (.invalidImage (.arrayType typeCode))) :
    Ends (Machine.newArray p typeCode) s (fun _ u => Quiet p K s u)
      (Stopped p K s F) := by
  unfold Machine.newArray
  cases helement : ArrayKind.ofTypeCode? typeCode with
  | none => exact ⟨h.quiet_self, hF helement⟩
  | some element =>
    by_cases hfloat : element = .float
    · subst hfloat
      refine (h.needFloats _).bind ?_
      intro _ u hend
      obtain ⟨rfl, hfloat⟩ := hend
      exact h.newArray .float hfloat
    · simp only [if_neg hfloat]
      apply h.newArray
      cases element with
      | float => exact absurd rfl hfloat
      | boolean | char | byte | short | int | reference => trivial

theorem newObjectOf (classId : UInt16)
    (hF : p.image.class? classId = none → F (.unknownClass classId)) :
    Ends (Machine.newObject p classId) s (fun _ u => Quiet p K s u)
      (Stopped p K s F) := by
  unfold Machine.newObject
  by_cases hnative : p.config.native.Contains classId
  · simp only [if_pos hnative]
    exact Bridge.construct_ends h classId
  · simp only [if_neg hnative]
    unfold Image.classOf
    cases hclass : p.image.class? classId with
    | none => exact ⟨h.quiet_self, hF hclass⟩
    | some c =>
      have hallowed : (p.image.class? c.id).isSome = true := by
        rw [(Image.class_mem hclass).2, hclass]
        rfl
      exact h.newObject hallowed

/-- The class of a receiver is one of the image. -/
theorem receiverClass (v : Value) (hv : Origin p K s s.heap v) :
    Ends (Machine.receiverClass? v) s
      (fun found u => u = s ∧ ∀ classId, found = some classId →
        (p.image.class? classId).isSome = true)
      (Stopped p K s F) := by
  cases v with
  | null | zero => exact Ends.throw ⟨h.quiet_self, h.common _ trivial⟩
  | ref r =>
    refine (h.header h.quiet_self hv).bind ?_
    intro entry u hend
    obtain ⟨rfl, hentry⟩ := hend
    refine Ends.pure ⟨rfl, ?_⟩
    intro classId hclass
    apply h.sound.classes entry (Array.mem_of_getElem? hentry)
    cases hkind : entry.kind with
    | object c =>
      rw [hkind] at hclass
      cases hclass
      rfl
    | chunk | array element =>
      rw [hkind] at hclass
      cases hclass
  | int | float | const =>
    refine Ends.pure ⟨rfl, ?_⟩
    intro classId hclass
    cases hclass

/-- The method of a virtual call.  Nothing is changed while it is looked
for. -/
theorem dispatch (hc : p.image.Checked p.config) (r : MethodRef)
    {found : Resolved} (hfound : found.Present p.image) :
    Ends (Machine.dispatch p r found) s
      (fun nearest u => u = s ∧ nearest.Present p.image)
      (Stopped p K s F) := by
  cases found with
  | native r' => exact Ends.pure ⟨rfl, hfound⟩
  | method index =>
    obtain ⟨method, hmethod⟩ := hfound
    have hpresent : (Resolved.method index).Present p.image :=
      ⟨method, hmethod⟩
    refine Ends.bind_ok (lift_of_ok (Image.method_of_entry hmethod)) ?_
    by_cases hargs : method.args.toNat = 0
    · simp only [if_pos hargs]
      exact Ends.pure ⟨rfl, hpresent⟩
    · simp only [if_neg hargs]
      refine (h.peek _ h.quiet_self).bind ?_
      intro receiver t hend
      obtain ⟨rfl, hreceiver, -⟩ := hend
      refine (h.receiverClass receiver hreceiver).bind ?_
      intro class? t' hend
      obtain ⟨rfl, hclass⟩ := hend
      cases class? with
      | none => exact Ends.pure ⟨rfl, hpresent⟩
      | some classId =>
        simp only
        split
        · exact Ends.pure ⟨rfl, hpresent⟩
        · split
          · apply Ends.lift
            · intro nearest hnearest
              exact ⟨rfl, Image.resolve_present hnearest⟩
            · intro e he
              rcases hc.resolve_error he with rfl | ⟨hnone, -⟩
              · exact ⟨h.quiet_self, h.common _ trivial⟩
              · have hsome := hclass classId rfl
                rw [hnone] at hsome
                cases hsome
          · exact Ends.throw ⟨h.quiet_self, h.common _ trivial⟩

end Store.Ready

end SlotVm
