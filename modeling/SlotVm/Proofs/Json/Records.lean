import SlotVm.Json.Record
import SlotVm.Proofs.Json.Tokens

/-!
# Records read back

A record that is printed with its fields in order has each of them under its
name (`fields?_record`), as long as no two names are equal.  Integers of each
width and lists keep their values.
-/

namespace SlotVm.Json

/-! ## Fields of records -/

theorem named?_record (members : List (String × Json)) :
    named? (members.map fun m => (some m.1, m.2)) = some members := by
  unfold named?
  induction members with
  | nil => rfl
  | cons m members ih => simp [ih]

/-- A name that stands once has its value. -/
theorem member?_of_mem {members : List (String × Json)}
    (hnames : (members.map (·.1)).Nodup) {m : String × Json}
    (hm : m ∈ members) : member? members m.1 = some (some m.2) := by
  have hfilter : members.filter (·.1 == m.1) = [m] := by
    induction members with
    | nil => cases hm
    | cons k members ih =>
      rw [List.map_cons, List.nodup_cons] at hnames
      rcases List.mem_cons.mp hm with rfl | hm
      · have hrest : members.filter (·.1 == m.1) = [] := by
          rw [List.filter_eq_nil_iff]
          intro k hk heq
          exact hnames.1 (eq_of_beq heq ▸ List.mem_map_of_mem hk)
        simp [hrest]
      · have hne : (k.1 == m.1) = false := by
          rw [beq_eq_false_iff_ne]
          intro heq
          exact hnames.1 (heq ▸ List.mem_map_of_mem hm)
        rw [List.filter_cons, if_neg (by simp [hne]), ih hnames.2 hm]
  rw [member?, hfilter]

/-- A name that does not stand there has none. -/
theorem member?_of_not_mem {members : List (String × Json)} {name : String}
    (h : name ∉ members.map (·.1)) : member? members name = some none := by
  have hfilter : members.filter (·.1 == name) = [] := by
    rw [List.filter_eq_nil_iff]
    intro m hm heq
    exact h (eq_of_beq heq ▸ List.mem_map_of_mem hm)
  rw [member?, hfilter]

/-- The fields of a record with the names of a list, if each of them is
known. -/
theorem fields?_of_member {α : Type} {members : List (String × Json)}
    {entries : List (String × α)} {field : String × α → Option Json}
    (h : ∀ e ∈ entries, member? members e.1 = some (field e)) :
    fields? (entries.map (·.1)) (record members) =
      some (entries.map field) := by
  have hfields : fields? (entries.map (·.1)) (record members)
      = named? (members.map fun m => (some m.1, m.2)) >>= fun ms =>
          (entries.map (·.1)).mapM (member? ms) := rfl
  rw [hfields, named?_record, Option.bind_eq_bind, Option.bind_some]
  clear hfields
  induction entries with
  | nil => rfl
  | cons e entries ih =>
    have hrest := ih fun k hk => h k (.tail _ hk)
    rw [List.map_cons, List.mapM_cons, h e List.mem_cons_self, hrest]
    rfl

/-- The fields of a record are found under their names. -/
theorem fields?_record (members : List (String × Json))
    (hnames : (members.map (·.1)).Nodup) :
    fields? (members.map (·.1)) (record members)
      = some (members.map fun m => some m.2) :=
  fields?_of_member fun _ hm => member?_of_mem hnames hm

/-! ## Scalars and lists -/

theorem nat?_ofNat {bits n : Nat} (h : n < 1 <<< bits) :
    nat? bits (ofNat n) = some n := by
  have hrange : ((0 : Int) ≤ n && (n : Int) ≤ ((1 <<< bits : Nat) - 1 : Int))
      = true := by
    rw [Bool.and_eq_true, decide_eq_true_iff, decide_eq_true_iff]
    omega
  simp only [nat?, ofNat, ofInt, intIn?, Number.int?_ofInt,
    Option.filter_some, hrange]
  rfl

theorem uint8?_ofNat (x : UInt8) : uint8? (ofNat x.toNat) = some x := by
  rw [uint8?, nat?_ofNat x.toNat_lt]
  simp

theorem uint16?_ofNat (x : UInt16) : uint16? (ofNat x.toNat) = some x := by
  rw [uint16?, nat?_ofNat x.toNat_lt]
  simp

theorem uint32?_ofNat (x : UInt32) : uint32? (ofNat x.toNat) = some x := by
  rw [uint32?, nat?_ofNat x.toNat_lt]
  simp

theorem int32?_ofInt (n : Int32) : int32? (ofInt n.toInt) = some n := by
  have hlow := n.le_toInt
  have hhigh := n.toInt_lt
  have hrange : ((-0x80000000 : Int) ≤ n.toInt && n.toInt ≤ (0x7fffffff : Int))
      = true := by
    rw [Bool.and_eq_true, decide_eq_true_iff, decide_eq_true_iff]
    omega
  simp only [int32?, ofInt, intIn?, Number.int?_ofInt, Option.filter_some,
    hrange]
  simp

/-- A list reads back if each of its elements does. -/
theorem listOf?_map {α : Type} {read : Json → Option α} {write : α → Json}
    (xs : List α) (h : ∀ x ∈ xs, read (write x) = some x) :
    listOf? read (.list (xs.map write)) = some xs := by
  unfold listOf?
  induction xs with
  | nil => rfl
  | cons x xs ih =>
    simp [h x List.mem_cons_self, ih fun y hy => h y (.tail _ hy)]

/-- Integers up to 64 bits are kept. -/
theorem isKeepable_ofNat {n : Nat} (h : n < Number.significandBound)
    (depth : Nat) : isKeepable depth (.ofNat n) = true := by
  have hvalue : natOfDigits (Number.ofInt n).whole = n := by
    simpa [Number.ofInt] using natOfDigits_toDigits n
  simp only [ofNat, ofInt, isKeepable, Number.isInRange,
    hvalue]
  simp [Number.ofInt, Number.isWhole, h]

end SlotVm.Json
