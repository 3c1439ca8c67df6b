import SlotVm.Config.Json
import SlotVm.Proofs.Json.Records
import SlotVm.Proofs.Json.Values

/-!
# Configurations with missing fields

The JSON form of a configuration may lack any of its fields, whole groups or
fields inside a group.  `Json.without` takes members out of a value, and
`Config.replace` puts the fields of another configuration in their places.

A field that is missing takes its value in the profile `Config.unix`, with two
exceptions.  A group that is present fills its own gaps, and a group of
features has no floats then, and a group of families no console.
`Config.filled` is that configuration, and `Config.parse_without` says that it
is what is read.

There are three groups of lemmas.

* Members that are taken out: the fields of a record that are left
  (`Json.fields?_without`).
* One lemma for each group of settings and one for the whole configuration,
  which all go through the same two steps: the fields that are there, and a
  value for each of them.
* The text of the value that is left (`Json.Printable.without`).
-/

namespace SlotVm

/-! ## Members that are taken out -/

namespace Json

/-- Some members of a value.  A member is given by the names that lead to it,
from the outside in. -/
abbrev Places := List String → Bool

namespace Places

/-- The places inside a member. -/
def inside (gone : Places) (name : String) : Places := fun path =>
  gone (name :: path)

/-- One value for a member that is gone, and another one otherwise. -/
def pick {α : Type} (gone : Places) (name : String) (new old : α) : α :=
  if gone [name] then new else old

/-- A member is gone from a group that is still there. -/
def inGroup (gone : Places) (group name : String) : Bool :=
  !gone [group] && gone [group, name]

theorem inGroup_iff {gone : Places} {group name : String} :
    gone.inGroup group name = true ↔
      gone [group] = false ∧ gone [group, name] = true := by
  rw [inGroup, Bool.and_eq_true, Bool.not_eq_true']

end Places

mutual

/-- A value without some of its members. -/
def without (gone : Places) : Json → Json
  | object members => object (membersWithout gone members)
  | j => j

/-- The members that are left, without what is taken out of them. -/
def membersWithout (gone : Places) :
    List (Option String × Json) → List (Option String × Json)
  | [] => []
  | (none, j) :: rest => (none, j) :: membersWithout gone rest
  | (some name, j) :: rest =>
      if gone [name] then membersWithout gone rest
      else (some name, without (gone.inside name) j) :: membersWithout gone rest

end

/-- What is left of a member. -/
def left? (gone : Places) (m : String × Json) : Option (String × Json) :=
  if gone [m.1] then none else some (m.1, without (gone.inside m.1) m.2)

theorem without_record (gone : Places) (members : List (String × Json)) :
    without gone (record members) =
      record (members.filterMap (left? gone)) := by
  have hmembers : membersWithout gone
      (members.map fun m => (some m.1, m.2)) =
      (members.filterMap (left? gone)).map fun m => (some m.1, m.2) := by
    induction members with
    | nil => rfl
    | cons m rest ih =>
      rw [List.map_cons, membersWithout, ih, List.filterMap_cons, left?]
      by_cases hgone : gone [m.1] = true
      · simp only [if_pos hgone]
      · simp only [if_neg hgone, List.map_cons]
  exact (without.eq_1 ..).trans (congrArg object hmembers)

/-- The names that are left. -/
theorem map_left (gone : Places) (members : List (String × Json)) :
    (members.filterMap (left? gone)).map (·.1) =
      (members.map (·.1)).filter fun name => !gone [name] := by
  induction members with
  | nil => rfl
  | cons m rest ih =>
    by_cases hgone : gone [m.1] = true
    · simp [left?, hgone, ih]
    · simp [left?, hgone, ih]

/-- The field with a name, if it is left. -/
theorem member?_left {gone : Places} {members : List (String × Json)}
    (hnames : (members.map (·.1)).Nodup) {m : String × Json}
    (hm : m ∈ members) :
    member? (members.filterMap (left? gone)) m.1 =
      some (gone.pick m.1 none (some (without (gone.inside m.1) m.2))) := by
  by_cases hgone : gone [m.1] = true
  · have habsent : m.1 ∉ (members.filterMap (left? gone)).map (·.1) := by
      rw [map_left, List.mem_filter, hgone]
      exact fun h => Bool.noConfusion h.2
    rw [member?_of_not_mem habsent, Places.pick, if_pos hgone]
  · have hleft : (m.1, without (gone.inside m.1) m.2) ∈
        members.filterMap (left? gone) :=
      List.mem_filterMap.2 ⟨m, hm, if_neg hgone⟩
    have hdistinct : ((members.filterMap (left? gone)).map (·.1)).Nodup := by
      rw [map_left]
      exact hnames.filter _
    rw [member?_of_mem hdistinct hleft, Places.pick, if_neg hgone]

/-- The fields of a record, some of which are taken out. -/
theorem fields?_without (gone : Places) (members : List (String × Json))
    (hnames : (members.map (·.1)).Nodup) :
    fields? (members.map (·.1)) (without gone (record members)) =
      some (members.map fun m =>
        gone.pick m.1 none (some (without (gone.inside m.1) m.2))) := by
  rw [without_record]
  exact fields?_of_member fun m hm => member?_left hnames hm

/-- A field that may be missing has its value from elsewhere then, and is read
otherwise. -/
theorem orElse_pick {α : Type} {read : Json → Option α} {gone : Places}
    {name : String} {j : Json} {x : α} (fallback : α)
    (h : read (without (gone.inside name) j) = some x) :
    orElse read fallback
        (gone.pick name none (some (without (gone.inside name) j))) =
      some (gone.pick name fallback x) := by
  unfold Places.pick
  by_cases hgone : gone [name] = true
  · rw [if_pos hgone, if_pos hgone]
    rfl
  · rw [if_neg hgone, if_neg hgone]
    exact h

-- Nothing can be taken out of a truth value, a number or a text.

theorem orElse_bool (gone : Places) (name : String) (fallback b : Bool) :
    orElse bool? fallback
        (gone.pick name none (some (without (gone.inside name) (bool b)))) =
      some (gone.pick name fallback b) :=
  orElse_pick fallback rfl

theorem orElse_ofNat {α : Type} {read : Json → Option α} {n : Nat} {x : α}
    (h : read (ofNat n) = some x) (gone : Places) (name : String)
    (fallback : α) :
    orElse read fallback
        (gone.pick name none (some (without (gone.inside name) (ofNat n)))) =
      some (gone.pick name fallback x) :=
  orElse_pick fallback h

theorem orElse_ofString {α : Type} {read : Json → Option α} {s : String}
    {x : α} (h : read (ofString s) = some x) (gone : Places) (name : String)
    (fallback : α) :
    orElse read fallback
        (gone.pick name none (some (without (gone.inside name) (ofString s)))) =
      some (gone.pick name fallback x) :=
  orElse_pick fallback h

/-- What is left of a printable value is printable. -/
theorem Printable.without {j : Json} (h : Printable j) (gone : Places) :
    Printable (j.without gone) := by
  induction h generalizing gone with
  | null => exact .null
  | bool b => exact .bool b
  | number written => exact .number written
  | text s => exact .text s
  | list all => exact .list all
  | @record members _ ih =>
    rw [without_record]
    refine .record ?_
    intro m hm
    obtain ⟨m', hm', hleft⟩ := List.mem_filterMap.1 hm
    unfold left? at hleft
    split at hleft
    · cases hleft
    · cases hleft
      exact ih m' hm' _

end Json

/-! ## Fields from elsewhere -/

/-- The features with those at some places from another group. -/
def Features.replace (f : Features) (gone : Json.Places) (base : Features) :
    Features where
  arrays := gone.pick "arrays" base.arrays f.arrays
  switch := gone.pick "switch" base.switch f.switch
  inheritance := gone.pick "inheritance" base.inheritance f.inheritance
  float := gone.pick "float" base.float f.float

/-- The families with those at some places from another group. -/
def FamilySet.replace (f : FamilySet) (gone : Json.Places)
    (base : FamilySet) : FamilySet where
  stdio := gone.pick "stdio" base.stdio f.stdio
  avr := gone.pick "avr" base.avr f.avr
  lcd := gone.pick "lcd" base.lcd f.lcd
  asuro := gone.pick "asuro" base.asuro f.asuro

/-- The native range with the settings at some places from another one. -/
def NativeRange.replace (n : NativeRange) (gone : Json.Places)
    (base : NativeRange) : NativeRange where
  classBase := gone.pick "class_base" base.classBase n.classBase
  methodBits := gone.pick "method_bits" base.methodBits n.methodBits

/-- The configuration with the fields at some places from another one, both
whole groups and fields inside a group. -/
def Config.replace (c : Config) (gone : Json.Places) (base : Config) :
    Config where
  codeSize := gone.pick "code_size" base.codeSize c.codeSize
  heapSize := gone.pick "heap_size" base.heapSize c.heapSize
  stackSize := gone.pick "stack_size" base.stackSize c.stackSize
  maxCallDepth := gone.pick "max_call_depth" base.maxCallDepth c.maxCallDepth
  word := gone.pick "word" base.word c.word
  features := gone.pick "features" base.features
    (c.features.replace (gone.inside "features") base.features)
  residue := gone.pick "stack_check" base.residue c.residue
  storageFlag := gone.pick "nvmfile_flag" base.storageFlag c.storageFlag
  native := gone.pick "native" base.native
    (c.native.replace (gone.inside "native") base.native)
  families := gone.pick "families" base.families
    (c.families.replace (gone.inside "families") base.families)
  trace := gone.pick "trace" base.trace c.trace

/-! ## What is read -/

theorem Features.ofJson?_without (gone : Json.Places) (f : Features) :
    ofJson? (f.toJson.without gone) = some (f.replace gone fallback) := by
  have hfields := Json.fields?_without gone
    [("arrays", .bool f.arrays), ("switch", .bool f.switch),
      ("inheritance", .bool f.inheritance), ("float", .bool f.float)]
    (by simp)
  simp only [List.map_cons, List.map_nil] at hfields
  simp only [ofJson?, toJson, hfields, Json.orElse_bool, Option.bind_eq_bind,
    Option.bind_some]
  rfl

theorem FamilySet.ofJson?_without (gone : Json.Places) (f : FamilySet) :
    ofJson? (f.toJson.without gone) = some (f.replace gone fallback) := by
  have hfields := Json.fields?_without gone
    [("stdio", .bool f.stdio), ("avr", .bool f.avr), ("lcd", .bool f.lcd),
      ("asuro", .bool f.asuro)]
    (by simp)
  simp only [List.map_cons, List.map_nil] at hfields
  simp only [ofJson?, toJson, hfields, Json.orElse_bool, Option.bind_eq_bind,
    Option.bind_some]
  rfl

theorem NativeRange.ofJson?_without (gone : Json.Places) (n : NativeRange) :
    ofJson? (n.toJson.without gone) = some (n.replace gone fallback) := by
  have hfields := Json.fields?_without gone
    [("class_base", .ofNat n.classBase.toNat),
      ("method_bits", .ofNat n.methodBits.toNat)]
    (by simp)
  simp only [List.map_cons, List.map_nil] at hfields
  simp only [ofJson?, toJson, hfields,
    Json.orElse_ofNat (Json.uint16?_ofNat n.classBase),
    Json.orElse_ofNat (Json.uint8?_ofNat n.methodBits), Option.bind_eq_bind,
    Option.bind_some]
  rfl

/-! ## What a group has unless it says otherwise -/

-- The profile has floats and the console, which the groups leave out.

theorem Features.replace_fallback (f : Features) (gone : Json.Places) :
    f.replace gone fallback =
      { f.replace gone Config.unix.features with
        float := (f.replace gone Config.unix.features).float &&
          !gone ["float"] } := by
  by_cases hgone : gone ["float"] = true
  · simp [replace, Json.Places.pick, hgone, fallback, Config.unix]
  · simp [replace, Json.Places.pick, hgone, fallback, Config.unix]

theorem FamilySet.replace_fallback (f : FamilySet) (gone : Json.Places) :
    f.replace gone fallback =
      { f.replace gone Config.unix.families with
        stdio := (f.replace gone Config.unix.families).stdio &&
          !gone ["stdio"] } := by
  by_cases hgone : gone ["stdio"] = true
  · simp [replace, Json.Places.pick, hgone, fallback, Config.unix]
  · simp [replace, Json.Places.pick, hgone, fallback, Config.unix]

namespace Config

/-- The sizes are numbers of 64 bits. -/
structure Sized (c : Config) : Prop where
  codeSize : c.codeSize < 1 <<< 64
  heapSize : c.heapSize < 1 <<< 64
  stackSize : c.stackSize < 1 <<< 64
  maxCallDepth : c.maxCallDepth < 1 <<< 64

variable {c : Config} {gone : Json.Places}

/-- What is read for a configuration from whose form some fields are missing.
They take their values from the profile `unix`, but floats and the console
are off if they are missing in a group that is there. -/
def filled (c : Config) (gone : Json.Places) : Config :=
  let r := c.replace gone unix
  { r with
    features.float := r.features.float && !gone.inGroup "features" "float"
    families.stdio := r.families.stdio && !gone.inGroup "families" "stdio" }

/-- The gaps of a group that is there are filled by the group. -/
theorem filled_eq (c : Config) (gone : Json.Places) :
    c.filled gone =
      { c.replace gone unix with
        features := gone.pick "features" unix.features
          (c.features.replace (gone.inside "features") Features.fallback)
        native := gone.pick "native" unix.native
          (c.native.replace (gone.inside "native") NativeRange.fallback)
        families := gone.pick "families" unix.families
          (c.families.replace (gone.inside "families") FamilySet.fallback) } := by
  have hfeatures : ({ (c.replace gone unix).features with
        float := (c.replace gone unix).features.float &&
          !gone.inGroup "features" "float" } : Features) =
      gone.pick "features" unix.features
        (c.features.replace (gone.inside "features") Features.fallback) := by
    rw [Features.replace_fallback]
    by_cases hgone : gone ["features"] = true
    · simp [replace, Json.Places.pick, Json.Places.inGroup, hgone, unix]
    · simp [replace, Json.Places.pick, Json.Places.inGroup,
        Json.Places.inside, hgone]
  have hfamilies : ({ (c.replace gone unix).families with
        stdio := (c.replace gone unix).families.stdio &&
          !gone.inGroup "families" "stdio" } : FamilySet) =
      gone.pick "families" unix.families
        (c.families.replace (gone.inside "families") FamilySet.fallback) := by
    rw [FamilySet.replace_fallback]
    by_cases hgone : gone ["families"] = true
    · simp [replace, Json.Places.pick, Json.Places.inGroup, hgone, unix]
    · simp [replace, Json.Places.pick, Json.Places.inGroup,
        Json.Places.inside, hgone]
  simp only [filled, hfeatures, hfamilies]
  rfl

theorem ofJson?_without (hc : c.Sized) (gone : Json.Places) :
    ofJson? (c.toJson.without gone) = some (c.filled gone) := by
  have hfields := Json.fields?_without gone c.members (by simp [members])
  have hsize : ∀ {n : Nat}, n < 1 <<< 64 →
      Json.size? (.ofNat n) = some n := Json.nat?_ofNat
  have hword : Json.name? Width.names (.ofString c.word.name) =
      some c.word := by
    cases c.word <;> rfl
  have hresidue : Json.name? ResiduePolicy.names (.ofString c.residue.name) =
      some c.residue := by
    cases c.residue <;> rfl
  simp only [members, List.map_cons, List.map_nil] at hfields
  simp only [ofJson?, fieldNames, toJson, members, hfields, Json.orElse_bool,
    Json.orElse_ofNat (hsize hc.codeSize),
    Json.orElse_ofNat (hsize hc.heapSize),
    Json.orElse_ofNat (hsize hc.stackSize),
    Json.orElse_ofNat (hsize hc.maxCallDepth),
    Json.orElse_ofNat (Json.uint32?_ofNat c.storageFlag),
    Json.orElse_ofString hword, Json.orElse_ofString hresidue,
    Json.orElse_pick _ (c.features.ofJson?_without _),
    Json.orElse_pick _ (c.native.ofJson?_without _),
    Json.orElse_pick _ (c.families.ofJson?_without _),
    Option.bind_eq_bind, Option.bind_some, filled_eq]
  rfl

/-- A field that is missing in a group is that of the other group. -/
theorem replace_inGroup (c base : Config) (gone : Json.Places) :
    (gone.inGroup "features" "float" = true →
      (c.replace gone base).features.float = base.features.float) ∧
    (gone.inGroup "families" "stdio" = true →
      (c.replace gone base).families.stdio = base.families.stdio) := by
  constructor
  · intro h
    obtain ⟨hgroup, hname⟩ := Json.Places.inGroup_iff.1 h
    simp [replace, Features.replace, Json.Places.pick, Json.Places.inside,
      hgroup, hname]
  · intro h
    obtain ⟨hgroup, hname⟩ := Json.Places.inGroup_iff.1 h
    simp [replace, FamilySet.replace, Json.Places.pick, Json.Places.inside,
      hgroup, hname]

/-- Only two fields can be read as something else than in the profile
`unix`. -/
theorem filled_eq_replace_iff : c.filled gone = c.replace gone unix ↔
    gone.inGroup "features" "float" = false ∧
      gone.inGroup "families" "stdio" = false := by
  obtain ⟨hfloat, hstdio⟩ := replace_inGroup c unix gone
  constructor
  · intro h
    -- In the profile both are on, and in what is read they are off.
    have hfeatures : (c.filled gone).features.float =
        (c.replace gone unix).features.float := by rw [h]
    have hfamilies : (c.filled gone).families.stdio =
        (c.replace gone unix).families.stdio := by rw [h]
    constructor
    · cases hlone : gone.inGroup "features" "float" with
      | false => rfl
      | true =>
        simp only [filled, hlone, hfloat hlone] at hfeatures
        exact absurd hfeatures (by decide)
    · cases hlone : gone.inGroup "families" "stdio" with
      | false => rfl
      | true =>
        simp only [filled, hlone, hstdio hlone] at hfamilies
        exact absurd hfamilies (by decide)
  · intro h
    obtain ⟨hfloat, hstdio⟩ := h
    simp only [filled, hfloat, hstdio, Bool.not_false, Bool.and_true]

/-! ## Texts -/

theorem toJson_printable (c : Config) : c.toJson.Printable := by
  have hnat : ∀ n, (Json.ofNat n).Printable := fun n =>
    .number (Json.Number.ofInt_written n)
  have hfeatures : c.features.toJson.Printable :=
    .record (by simp [Json.Printable.bool])
  have hnative : c.native.toJson.Printable := .record (by simp [hnat])
  have hfamilies : c.families.toJson.Printable :=
    .record (by simp [Json.Printable.bool])
  refine .record ?_
  simp [members, hnat, hfeatures, hnative, hfamilies, Json.Printable.bool,
    Json.Printable.text]

/-- A missing field takes its value in the profile `unix`, whichever fields
are missing, whole groups or fields of a group, and however the rest is laid
out as a text.  The configuration is then checked as any other one.  There are
two exceptions, and no others: a group of features that is there but does not
say so has no floats, and a group of families no console. -/
theorem parse_without (hc : c.Sized) (gone : Json.Places) :
    (∀ text, Json.parse? text = some (c.toJson.without gone) →
      Config.parse text = (do (c.filled gone).check; return c.filled gone)) ∧
    Json.parse? (c.toJson.without gone).pretty =
      some (c.toJson.without gone) ∧
    (c.filled gone = c.replace gone unix ↔
      gone.inGroup "features" "float" = false ∧
        gone.inGroup "families" "stdio" = false) := by
  refine ⟨?_, ?_, filled_eq_replace_iff⟩
  · intro text htext
    rw [Config.parse, htext, Option.bind_eq_bind, Option.bind_some,
      ofJson?_without hc]
  · exact Json.parse?_pretty (c.toJson_printable.without gone)

/-- Every field but the size of the heap, and all that a group of features
has. -/
def mostFields : Json.Places := fun path =>
  path != ["heap_size"] && path != ["features"]

/-- The profile `unix` with a small heap. -/
def smallHeap : Config := { unix with heapSize := 64 }

theorem parse_without_mostFields :
    smallHeap.Sized ∧
    Json.parse? "\x7b\"heap_size\":64,\"features\":\x7b\x7d\x7d" =
      some (smallHeap.toJson.without mostFields) ∧
    Config.parse "\x7b\"heap_size\":64,\"features\":\x7b\x7d\x7d" =
      .ok { smallHeap with features.float := false } ∧
    smallHeap.replace mostFields unix = smallHeap := by
  have hsized : smallHeap.Sized := by
    constructor <;> decide
  have htext : Json.parse?
      "\x7b\"heap_size\":64,\"features\":\x7b\x7d\x7d" =
      some (smallHeap.toJson.without mostFields) := rfl
  obtain ⟨hparse, -, -⟩ := parse_without hsized mostFields
  have hfilled : smallHeap.filled mostFields =
      { smallHeap with features.float := false } := by decide
  have hread := hparse _ htext
  rw [hfilled] at hread
  exact ⟨hsized, htext, hread, by decide⟩

end Config

end SlotVm
