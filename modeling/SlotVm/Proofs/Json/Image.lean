import SlotVm.Image.Json
import SlotVm.Proofs.Json.Records
import SlotVm.Proofs.Json.Values

/-!
# Images read back

`Image.parse` undoes `Image.print` (`Image.parse_print`).  Each part of an
image has a JSON form that reads as the part, and the form of the whole is
printable, so what its text says is that form.

A single-precision constant is the one part that can be lost: its text is the
shortest decimal, and a decimal is read in double precision first.  The
theorem asks of each such constant that its own text reads back
(`ReadsBack`); what is left to show is that inside an image the constant is
that same text, which stands without blanks.
-/

namespace SlotVm

/-! ## Parts of an image -/

theorem MethodRef.ofJson?_toJson (r : MethodRef) : ofJson? r.toJson = some r := by
  have hfields := Json.fields?_record
    [("class_id", .ofNat r.classId.toNat), ("method_id", .ofNat r.methodId.toNat)]
    (by simp)
  simp only [List.map_cons, List.map_nil] at hfields
  simp only [ofJson?, toJson, hfields, Json.required]
  simp [Json.uint16?_ofNat]

theorem ClassDescriptor.ofJson?_toJson (c : ClassDescriptor) :
    ofJson? c.toJson = some c := by
  rcases c with ⟨id, parent, fields⟩
  have hfields := fun j => Json.fields?_record
    [("id", .ofNat id.toNat), ("parent", j), ("fields", .ofNat fields.toNat)]
    (by simp)
  simp only [List.map_cons, List.map_nil] at hfields
  cases parent with
  | none =>
    simp only [ofJson?, toJson, hfields, Json.required, Json.orElse]
    simp [Json.uint16?_ofNat, Json.nullable?]
  | some p =>
    have hnullable : Json.nullable? Json.uint16? (.ofNat p.toNat)
        = some (some p) := by
      show (Json.uint16? (.ofNat p.toNat)).map some = _
      rw [Json.uint16?_ofNat]
      rfl
    simp only [ofJson?, toJson, hfields, Json.required, Json.orElse]
    simp [Json.uint16?_ofNat, hnullable]

theorem MethodBody.ofJson?_toJson (b : MethodBody) :
    ofJson? b.toJson = some b := by
  cases b with
  | native =>
    rfl
  | bytecode address len =>
    have haddress := address.toNat_lt
    have hlen := len.toNat_lt
    have hkeep : ∀ n : Nat, n < 4294967296 →
        Json.isKeepable depthLimit (.ofNat n) = true := fun n hn =>
      Json.isKeepable_ofNat (Nat.lt_trans hn (by decide)) depthLimit
    have hkind : kindNames.lookup "bytecode" = some .bytecode := rfl
    simp only [toJson, Json.record, ofJson?]
    simp [Json.named?, Json.member?, Json.string?, Json.ofString, hkind,
      ofPlace?, Json.required, Json.uint32?_ofNat, hkeep _ haddress,
      hkeep _ hlen]

theorem MethodDescriptor.ofJson?_toJson (m : MethodDescriptor) :
    ofJson? m.toJson = some m := by
  have hfields := Json.fields?_record
    [("class_id", .ofNat m.classId.toNat),
      ("method_id", .ofNat m.methodId.toNat), ("args", .ofNat m.args.toNat),
      ("max_locals", .ofNat m.maxLocals.toNat),
      ("max_stack", .ofNat m.maxStack.toNat), ("body", m.body.toJson)]
    (by simp)
  simp only [List.map_cons, List.map_nil] at hfields
  simp only [ofJson?, toJson, hfields, Json.required, Json.orElse]
  simp [Json.uint16?_ofNat, Json.uint8?_ofNat, MethodBody.ofJson?_toJson]

/-! ## Single-precision constants -/

/-- The stored text of a single reads back as that single. -/
def ReadsBack (x : Float32) : Prop :=
  (Json.parse? (Decimal.Layout.stored.text x) >>= Json.single?) = some x

instance (x : Float32) : Decidable (ReadsBack x) :=
  inferInstanceAs (Decidable (_ = _))

namespace Json

theorem scanElements_list {scan : Scan} {fuel : Nat} {read : List Json}
    {cs rest : List Char} {j : Json}
    (h : scanElements scan fuel read cs = some (j, rest)) :
    ∃ elements, j = .list elements := by
  induction fuel generalizing read cs with
  | zero => cases h
  | succ fuel ih =>
    simp only [scanElements] at h
    split at h
    · cases h
    · split at h
      · exact ih h
      · cases h
        exact ⟨_, rfl⟩
      · cases h

theorem scanMembers_object {scan : Scan} {fuel : Nat}
    {read : List (Option String × Json)} {cs rest : List Char} {j : Json}
    (h : scanMembers scan fuel read cs = some (j, rest)) :
    ∃ members, j = .object members := by
  induction fuel generalizing read cs with
  | zero => cases h
  | succ fuel ih =>
    simp only [scanMembers] at h
    split at h
    · cases h
    · split at h
      · exact ih h
      · cases h
        exact ⟨_, rfl⟩
      · cases h

/-- A value that is a number was read as one. -/
theorem scanNumber_of_scanValue {limit fuel : Nat} {cs rest : List Char}
    {n : Number} (h : scanValue limit fuel cs = some (.number n, rest)) :
    scanNumber cs = some (n, rest) := by
  cases fuel with
  | zero => cases h
  | succ fuel =>
    simp only [scanValue] at h
    split at h
    · split at h
      · cases h
      · obtain ⟨_, hlist⟩ := scanElements_list h
        cases hlist
    · split at h
      · cases h
      · obtain ⟨_, hobject⟩ := scanMembers_object h
        cases hobject
    · split at h <;> cases h
    · cases h
    · cases h
    · cases h
    · split at h
      · rename_i hscan
        cases h
        exact hscan
      · cases h

theorem singleToJson_printable (x : Float32) : (singleToJson x).Printable := by
  unfold singleToJson
  split
  · rename_i hscan
    exact .number (scanNumber_written hscan)
  · exact .null

end Json

namespace Decimal

theorem isDigit_of_mem_ofMultiple {k : Nat} {place : Int} {c : Char}
    (h : c ∈ (Digits.ofMultiple k place).digits) : c.isDigit = true := by
  have hall : c ∈ Nat.toDigits 10 k := by
    have := (List.dropWhile_sublist _).mem (List.mem_reverse.mp h)
    exact List.mem_reverse.mp this
  exact Nat.isDigit_of_mem_toDigits (by decide) (by decide) hall

theorem isDigit_of_mem_shortest {tie : Tie} {units : Nat} {c : Char}
    (h : c ∈ (shortest tie units).digits) : c.isDigit = true := by
  have hfrom : ∀ (i : Interval) (place : Nat),
      c ∈ (i.shortestFrom tie place).digits → c.isDigit = true := by
    intro i place h
    induction place with
    | zero => exact isDigit_of_mem_ofMultiple h
    | succ place ih =>
      rw [Interval.shortestFrom] at h
      split at h
      · exact isDigit_of_mem_ofMultiple h
      · exact ih h
  exact hfrom _ _ h

theorem isDigit_of_mem_replicate {c : Char} {n : Nat}
    (h : c ∈ List.replicate n '0') : c.isDigit = true := by
  rw [List.eq_of_mem_replicate h]
  rfl

theorem mem_positional {d : Digits} (hd : ∀ c ∈ d.digits, c.isDigit = true)
    {c : Char} (h : c ∈ positional d) : c.isDigit = true ∨ c = '.' := by
  unfold positional at h
  split at h
  · simp only [List.cons_append, List.mem_cons, List.mem_append] at h
    rcases h with rfl | rfl | h | h
    · exact .inl rfl
    · exact .inr rfl
    · exact .inl (isDigit_of_mem_replicate h)
    · exact .inl (hd c h)
  · have hpadded : ∀ c ∈ d.digits
        ++ List.replicate (d.exponent.toNat + 1 - d.digits.length) '0',
        c.isDigit = true := by
      intro c hc
      rcases List.mem_append.mp hc with hc | hc
      · exact hd c hc
      · exact isDigit_of_mem_replicate hc
    simp only [List.mem_append, List.mem_cons] at h
    rcases h with h | rfl | h
    · exact .inl (hpadded c (List.mem_of_mem_take h))
    · exact .inr rfl
    · split at h
      · rw [List.mem_singleton.mp h]
        exact .inl rfl
      · exact .inl (hpadded c (List.mem_of_mem_drop h))

theorem mem_scientific {plusSign : Bool} {d : Digits}
    (hd : ∀ c ∈ d.digits, c.isDigit = true) {c : Char}
    (h : c ∈ scientific plusSign d) :
    c.isDigit = true ∨ c ∈ ['.', 'e', '-', '+'] := by
  unfold scientific at h
  simp only [List.mem_append, List.mem_cons] at h
  rcases h with (h | rfl | h) | h
  · split at h
    · cases h
    · rename_i heq
      exact .inl (hd c (heq ▸ h))
    · rename_i first rest _ heq
      rcases List.mem_cons.mp h with rfl | h
      · exact .inl (hd _ (heq ▸ List.mem_cons_self))
      · rcases List.mem_cons.mp h with rfl | h
        · exact .inr (by decide)
        · exact .inl (hd _ (heq ▸ .tail _ h))
  · exact .inr (by decide)
  · split at h
    · rw [List.mem_singleton.mp h]
      exact .inr (by decide)
    · split at h
      · rw [List.mem_singleton.mp h]
        exact .inr (by decide)
      · cases h
  · exact .inl (Nat.isDigit_of_mem_toDigits (by decide) (by decide) h)

theorem Layout.magnitude_not_blank (l : Layout) (units : Nat) :
    ∀ c ∈ l.magnitude units, Json.isBlank c = false := by
  intro c hc
  have hd : ∀ c ∈ (shortest l.tie units).digits, c.isDigit = true :=
    fun c => isDigit_of_mem_shortest
  have hmarks : ∀ c ∈ ['.', 'e', '-', '+'], Json.isBlank c = false :=
    Json.not_isBlank_of_any (by decide)
  unfold Layout.magnitude at hc
  simp only at hc
  split at hc
  · rcases mem_positional hd hc with h | rfl
    · exact Json.isBlank_of_isDigit h
    · rfl
  · rcases mem_scientific hd hc with h | h
    · exact Json.isBlank_of_isDigit h
    · exact hmarks c h

/-- No blank stands in a stored text. -/
theorem Layout.stored_text_not_blank (x : Float32) :
    ∀ c ∈ (Layout.stored.text x).toList, Json.isBlank c = false := by
  have hnull : ∀ c ∈ "null".toList, Json.isBlank c = false :=
    Json.not_isBlank_of_any (by decide)
  intro c hc
  rw [Layout.text] at hc
  cases hview : Single.view x with
  | nan =>
    rw [hview] at hc
    exact hnull c hc
  | infinite negative =>
    rw [hview] at hc
    cases negative <;> exact hnull c hc
  | finite negative units =>
    have hdigits : ∀ c ∈ (if units == 0 then ['0', '.', '0']
        else Layout.stored.magnitude units), Json.isBlank c = false := by
      split
      · exact Json.not_isBlank_of_any (by decide)
      · exact Layout.stored.magnitude_not_blank units
    simp only [hview, viewText, String.toList_ofList] at hc
    split at hc
    · rcases List.mem_cons.mp hc with rfl | hc
      · rfl
      · exact hdigits c hc
    · exact hdigits c hc

end Decimal

/-- A single whose stored text reads back is written as a number that stands
for it. -/
theorem ReadsBack.single? {x : Float32} (h : ReadsBack x) :
    (singleToJson x).single? = some x := by
  unfold ReadsBack at h
  obtain ⟨j, hparse, hj⟩ := Option.bind_eq_some_iff.mp h
  obtain ⟨n, rfl⟩ : ∃ n, j = .number n := by
    cases j with
    | number n => exact ⟨n, rfl⟩
    | _ => cases hj
  have hblanks : Json.skipBlanks (Decimal.Layout.stored.text x).toList
      = (Decimal.Layout.stored.text x).toList := by
    have hnone := Decimal.Layout.stored_text_not_blank x
    generalize (Decimal.Layout.stored.text x).toList = cs at hnone ⊢
    rcases cs with _ | ⟨c, cs⟩
    · rfl
    · exact Json.skipBlanks_cons (hnone c List.mem_cons_self) cs
  simp only [Json.parse?, hblanks] at hparse
  split at hparse
  · rename_i hscan
    split at hparse
    · cases hparse
      rw [singleToJson, Json.scanNumber_of_scanValue hscan]
      exact hj
    · cases hparse
  · cases hparse

/-! ## Constants and images -/

theorem Constant.ofJson?_toJson {c : Constant}
    (h : ∀ x, c = .float x → ReadsBack x) : ofJson? c.toJson = some c := by
  cases c with
  | int n =>
    show (Json.int32? (.ofInt n.toInt)).map Constant.int = _
    rw [Json.int32?_ofInt]
    rfl
  | float x =>
    show (Json.single? (singleToJson x)).map Constant.float = _
    rw [(h x rfl).single?]
    rfl
  | str text => rfl

namespace Image

/-- The JSON form of an image stands for the image, as far as its
single-precision constants read back. -/
theorem ofJson?_toJson {image : Image}
    (h : ∀ x, .float x ∈ image.constants → ReadsBack x) :
    ofJson? image.toJson = some image := by
  have hfields := Json.fields?_record
    [("classes", .list (image.classes.map (·.toJson))),
      ("methods", .list (image.methods.toList.map (·.toJson))),
      ("constants", .list (image.constants.toList.map (·.toJson))),
      ("code", .list (image.code.toList.map fun b => .ofNat b.toNat)),
      ("static_fields", .ofNat image.staticFields.toNat),
      ("main", image.main.toJson)]
    (by simp)
  simp only [List.map_cons, List.map_nil] at hfields
  have hconstant : ∀ c ∈ image.constants.toList,
      Constant.ofJson? c.toJson = some c := fun c hc =>
    Constant.ofJson?_toJson fun x hx => h x (hx ▸ Array.mem_toList_iff.mp hc)
  have hclasses := Json.listOf?_map image.classes fun c _ => c.ofJson?_toJson
  have hmethods := Json.listOf?_map image.methods.toList fun m _ =>
    m.ofJson?_toJson
  have hconstants := Json.listOf?_map image.constants.toList hconstant
  have hcode := Json.listOf?_map image.code.toList fun b _ =>
    Json.uint8?_ofNat b
  simp only [ofJson?, fieldNames, toJson, hfields, Json.required, Json.orElse]
  simp [hclasses, hmethods, hconstants, hcode, Json.uint16?_ofNat,
    MethodRef.ofJson?_toJson]

/-! ### The text of an image -/

theorem toJson_printable (image : Image) : image.toJson.Printable := by
  have hnat : ∀ n, (Json.ofNat n).Printable := fun n =>
    .number (Json.Number.ofInt_written n)
  have hclass : ∀ c : ClassDescriptor, c.toJson.Printable := by
    intro c
    refine .record ?_
    rcases c with ⟨id, _ | p, fields⟩ <;> simp [hnat, Json.Printable.null]
  have hbody : ∀ b : MethodBody, b.toJson.Printable := by
    intro b
    cases b <;> refine .record ?_ <;> simp [hnat, Json.Printable.text]
  have hmethod : ∀ m : MethodDescriptor, m.toJson.Printable := fun m =>
    .record (by simp [hnat, hbody])
  have hconstant : ∀ c : Constant, c.toJson.Printable := by
    intro c
    cases c with
    | int n =>
      exact .record (by
        simp [Json.ofInt, Json.Printable.number, Json.Number.ofInt_written])
    | float x => exact .record (by simp [Json.singleToJson_printable])
    | str text => exact .record (by simp [Json.Printable.text])
  refine .record ?_
  intro m hm
  simp only [List.mem_cons, List.not_mem_nil, or_false] at hm
  rcases hm with rfl | rfl | rfl | rfl | rfl | rfl
  · exact .list (by simp [hclass])
  · exact .list (by simp [hmethod])
  · exact .list (by simp [hconstant])
  · exact .list (by simp [hnat])
  · exact hnat _
  · exact .record (by simp [hnat])

/-- The text of an image reads as that image, whatever its classes, methods,
code and texts are.  Only the single-precision constants have to read back
one by one. -/
theorem parse_print {image : Image}
    (h : ∀ x, .float x ∈ image.constants → ReadsBack x) :
    parse image.print = .ok image := by
  rw [parse, print, Json.parse?_pretty image.toJson_printable,
    Option.bind_eq_bind, Option.bind_some, ofJson?_toJson h]

/-- An image with every kind of part.  The single-precision constants are an
ordinary number, the least and the most negative one. -/
def everyPart : Image where
  classes := [⟨1, none, 2⟩, ⟨2, some 1, 3⟩]
  methods :=
    #[⟨1, 0, 0, 1, 4, .bytecode 0x80000002 3⟩, ⟨2, 0, 1, 0, 0, .native⟩]
  constants :=
    #[.int (-2147483648), .float 1.5, .float 1e-45, .float (-3.4028235e38),
      .str "a\"b\\c\nd\u0001\u00e9\u4e16"]
  code := #[0, 127, 255]
  staticFields := 65535
  main := ⟨1, 0⟩

theorem parse_print_everyPart :
    (∀ x, .float x ∈ everyPart.constants → ReadsBack x)
      ∧ parse everyPart.print = .ok everyPart := by
  have h : ∀ x, .float x ∈ everyPart.constants → ReadsBack x := by
    intro x hx
    simp only [everyPart, List.mem_toArray, List.mem_cons, reduceCtorEq,
      List.not_mem_nil, Constant.float.injEq, false_or, or_false] at hx
    rcases hx with rfl | rfl | rfl <;> decide +kernel
  exact ⟨h, parse_print h⟩

end Image

end SlotVm
