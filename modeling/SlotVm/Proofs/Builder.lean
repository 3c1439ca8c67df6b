import Mathlib.Data.Nat.Bitwise
import SlotVm.Image.Builder
import SlotVm.Proofs.Alignment
import SlotVm.Proofs.WellFormed

/-!
# The code of built methods

An `ImageBuilder` puts the code of a method behind the code that is there
already, and it puts the position, with the storage flag in it if the method
is persistent, into the address of the method.  `build_methodCode` says what
code the finished image has for a method, for any calls that were made before
and after the one that added it.

* Later calls only append: they change no method and no byte that is there
  (`StartsWith`).
* The flag comes off the address again, but so does the bit of the position
  that has the place of the flag (`offset_decode_encode`).

So a method gets its code back if its position does not have that bit.  All
positions are like that if the code region is not larger than the flag
(`and_flag_of_lt`), but no check asks for it: `twoNumbers` builds an image
that passes all checks, and one of its methods has the code of the other.
-/

namespace SlotVm

/-! ## Addresses -/

/-- The position that is read from an address, if the address has been
written with the same flag or without one. -/
theorem Address.offset_decode_encode {flag tag : UInt32} (hflag : flag ≠ 0)
    {a : Address} (htag : a.storage = .persistent → tag = flag) :
    (decode flag (a.encode tag)).offset = a.offset &&& ~~~flag := by
  rw [offset_decode hflag]
  unfold encode
  cases hstorage : a.storage with
  | transient => rfl
  | persistent =>
    have hsplit : (a.offset ||| flag) &&& ~~~flag =
        a.offset &&& ~~~flag ||| flag &&& ~~~flag :=
      UInt32.toBitVec_inj.1 BitVec.and_or_distrib_right
    simp only [htag hstorage, hsplit, UInt32.and_not_self, UInt32.or_zero]

/-- Positions in front of the flag do not have its bit. -/
theorem Config.Valid.and_flag_of_lt {c : Config} (h : c.Valid) {n : Nat}
    (hn : n < c.storageFlag.toNat) : UInt32.ofNat n &&& c.storageFlag = 0 := by
  obtain ⟨i, -, hbit⟩ := h.flag
  have hsize : n < UInt32.size := Nat.lt_trans hn c.storageFlag.toNat_lt
  rw [Nat.one_shiftLeft] at hbit
  rw [hbit] at hn
  apply UInt32.toNat.inj
  rw [UInt32.toNat_and, UInt32.toNat_ofNat_of_lt' hsize, hbit,
    Nat.and_two_pow, Nat.testBit_lt_two_pow hn]
  exact Nat.zero_mul _

namespace ImageBuilder

/-! ## Calls -/

/-- A call that is made while an image is put together. -/
inductive Call where
  | persistent (flag : UInt32)
  | addClass (c : ClassDescriptor)
  | addMethod (r : MethodRef) (args maxLocals : UInt8) (code : Array UInt8)
  | addNative (r : MethodRef) (args : UInt8)
  | addConstant (c : Constant)
  | setStaticFields (count : UInt16)
  | setMain (r : MethodRef)

/-- The builder after a call. -/
def Call.apply (b : ImageBuilder) : Call → ImageBuilder
  | .persistent flag => b.persistent flag
  | .addClass c => b.addClass c
  | .addMethod r args maxLocals code => b.addMethod r args maxLocals code
  | .addNative r args => b.addNative r args
  | .addConstant c => (b.addConstant c).2
  | .setStaticFields count => b.setStaticFields count
  | .setMain r => b.setMain r

/-- The builder after some calls. -/
def perform (b : ImageBuilder) (calls : List Call) : ImageBuilder :=
  calls.foldl Call.apply b

/-- The image that some calls build. -/
def build (calls : List Call) : Image := (empty.perform calls).image

variable {b b' b'' : ImageBuilder} {flag : UInt32} {calls : List Call}

/-- The methods and the code of the second builder start with those of the
first one. -/
structure StartsWith (b b' : ImageBuilder) : Prop where
  methods : ∃ more, b'.image.methods = b.image.methods ++ more
  code : ∃ more, b'.image.code = b.image.code ++ more

theorem StartsWith.refl (b : ImageBuilder) : b.StartsWith b where
  methods := ⟨#[], Array.append_empty.symm⟩
  code := ⟨#[], Array.append_empty.symm⟩

theorem StartsWith.trans (h : b.StartsWith b') (h' : b'.StartsWith b'') :
    b.StartsWith b'' where
  methods := by
    obtain ⟨first, hfirst⟩ := h.methods
    obtain ⟨second, hsecond⟩ := h'.methods
    exact ⟨first ++ second, by rw [hsecond, hfirst, Array.append_assoc]⟩
  code := by
    obtain ⟨first, hfirst⟩ := h.code
    obtain ⟨second, hsecond⟩ := h'.code
    exact ⟨first ++ second, by rw [hsecond, hfirst, Array.append_assoc]⟩

/-- No call changes what is there. -/
theorem Call.startsWith (b : ImageBuilder) (call : Call) :
    b.StartsWith (call.apply b) := by
  cases call with
  | addMethod r args maxLocals code =>
    refine ⟨⟨#[_], Array.push_eq_append⟩, ?_⟩
    exact ⟨_, Array.append_assoc⟩
  | addNative r args =>
    exact ⟨⟨#[_], Array.push_eq_append⟩, (StartsWith.refl b).code⟩
  | persistent | addClass | addConstant | setStaticFields | setMain =>
    exact ⟨(StartsWith.refl b).methods, (StartsWith.refl b).code⟩

theorem perform_startsWith (b : ImageBuilder) (calls : List Call) :
    b.StartsWith (b.perform calls) := by
  induction calls generalizing b with
  | nil => exact .refl b
  | cons call calls ih => exact (call.startsWith b).trans (ih (call.apply b))

/-- Persistent methods are tagged with the flag. -/
def TaggedWith (flag : UInt32) (b : ImageBuilder) : Prop :=
  b.storage = .persistent → b.flag = flag

theorem Call.taggedWith (hb : b.TaggedWith flag) {call : Call}
    (hcall : ∀ tag, call = .persistent tag → tag = flag) :
    (call.apply b).TaggedWith flag := by
  cases call with
  | persistent tag => exact fun _ => hcall tag rfl
  | addClass | addMethod | addNative | addConstant | setStaticFields
  | setMain => exact hb

theorem perform_taggedWith (hb : b.TaggedWith flag)
    (hcalls : ∀ tag, Call.persistent tag ∈ calls → tag = flag) :
    (b.perform calls).TaggedWith flag := by
  induction calls generalizing b with
  | nil => exact hb
  | cons call calls ih =>
    refine ih (Call.taggedWith hb ?_) ?_
    · exact fun tag htag => hcalls tag (htag ▸ List.mem_cons_self)
    · exact fun tag htag => hcalls tag (List.mem_cons_of_mem _ htag)

/-! ## The code of a method -/

variable {config : Config} {r : MethodRef} {args maxLocals : UInt8}
variable {code : Array UInt8}

/-- Where the code of the next method is put. -/
def position (b : ImageBuilder) : Nat := b.alignedCode.size

/-- A method starts at a multiple of four, so its switches are aligned in the
code region as they are in its own code. -/
theorem four_dvd_position (b : ImageBuilder) : 4 ∣ b.position := by
  unfold position alignedCode
  simp only [Array.size_append, List.size_toArray]
  exact four_dvd_padding _ _

/-- The method that `addMethod` adds. -/
def newMethod (b : ImageBuilder) (r : MethodRef) (args maxLocals : UInt8)
    (code : Array UInt8) : MethodDescriptor where
  classId := r.classId
  methodId := r.methodId
  args := args
  maxLocals := maxLocals
  maxStack := 0
  body := .bytecode
    (Address.encode b.flag ⟨b.storage, UInt32.ofNat b.position⟩)
    (UInt32.ofNat code.size)

/-- The image has the method, and the code where the builder put it. -/
structure Includes (image : Image) (b : ImageBuilder) (m : MethodDescriptor)
    (code : Array UInt8) : Prop where
  method_mem : m ∈ image.methods
  code_at : image.code.extract b.position (b.position + code.size) = code
  end_le : b.position + code.size ≤ image.code.size

theorem includes_addMethod
    (h : (b.addMethod r args maxLocals code).StartsWith b') :
    Includes b'.image b (b.newMethod r args maxLocals code) code := by
  obtain ⟨methods, hmethods⟩ := h.methods
  obtain ⟨bytes, hbytes⟩ := h.code
  have hregion : b'.image.code = b.alignedCode ++ code ++ bytes := hbytes
  have htable : b'.image.methods =
      b.image.methods.push (b.newMethod r args maxLocals code) ++ methods :=
    hmethods
  constructor
  · rw [htable]
    exact Array.mem_append_left _ Array.mem_push_self
  · rw [hregion, position]
    simp
  · rw [hregion, position]
    simp

/-- What is read of an image for the next method, if that has a size: the
bytes from its position on, where the bit of the flag has been taken out of
the position. -/
def readBack (b : ImageBuilder) (flag : UInt32) (image : Image) (size : Nat) :
    Array UInt8 :=
  let start := (UInt32.ofNat b.position &&& ~~~flag).toNat
  image.code.extract start (start + (UInt32.ofNat size).toNat)

/-- That is the code of the method. -/
theorem methodCode_newMethod {image : Image} (hconfig : config.Valid)
    (himage : image.WellFormed config)
    (htagged : b.TaggedWith config.storageFlag)
    (hm : b.newMethod r args maxLocals code ∈ image.methods) :
    image.methodCode config.storageFlag (b.newMethod r args maxLocals code) =
      .ok (b.readBack config.storageFlag image code.size) := by
  have hoffset : (Address.decode config.storageFlag
      (Address.encode b.flag ⟨b.storage, UInt32.ofNat b.position⟩)).offset =
        UInt32.ofNat b.position &&& ~~~config.storageFlag :=
    Address.offset_decode_encode hconfig.flag_ne_zero htagged
  have hinside := himage.code_inside _ hm _ _ rfl
  rw [← Address.offset_decode hconfig.flag_ne_zero, hoffset] at hinside
  unfold Image.methodCode Image.codeOf newMethod
  simp only [hoffset]
  rw [if_pos hinside]
  rfl

/-- Where addresses reach the whole region, the code that has been given is
read, if its position does not have the bit of the flag. -/
theorem Includes.readBack_eq {image : Image} {m : MethodDescriptor}
    (h : Includes image b m code) (hsize : image.code.size < UInt32.size)
    (hclear : UInt32.ofNat b.position &&& flag = 0) :
    b.readBack flag image code.size = code := by
  have hend := h.end_le
  unfold readBack
  rw [Address.and_not_of_and_eq_zero hclear,
    UInt32.toNat_ofNat_of_lt' (by omega), UInt32.toNat_ofNat_of_lt' (by omega)]
  exact h.code_at

/-- In a region that is not larger than the flag, all positions are free of
the bit but the end of a full region, and no code fits there. -/
theorem Includes.readBack_eq_of_le {image : Image} {m : MethodDescriptor}
    (h : Includes image b m code) (hconfig : config.Valid)
    (hsize : image.code.size ≤ config.storageFlag.toNat) :
    b.readBack config.storageFlag image code.size = code := by
  have hend := h.end_le
  by_cases hposition : b.position < config.storageFlag.toNat
  · refine h.readBack_eq ?_ (hconfig.and_flag_of_lt hposition)
    exact Nat.lt_of_le_of_lt hsize config.storageFlag.toNat_lt
  · have hempty : code = #[] := Array.size_eq_zero_iff.1 (by omega)
    rw [hempty]
    exact Array.extract_empty_of_stop_le_start (Nat.le_refl _)

/-- The code of the methods of a built image, for every configuration and all
calls that use the flag of the configuration, if the image passes the check.
A method that has been added is found, and its code is read at its position
without the bit of the flag.  This is the code that has been given for it if
the region has less than 4 GiB and the position does not have that bit.  So
all methods have their code if the configuration keeps the region as small as
the flag. -/
theorem build_methodCode {before after : List Call}
    (hconfig : config.check = .ok ())
    (hcalls : calls = before ++ .addMethod r args maxLocals code :: after)
    (hflags : ∀ tag, .persistent tag ∈ calls → tag = config.storageFlag)
    (himage : (build calls).check config = .ok ()) :
    ∃ index m, (build calls).findMethod? r = some index ∧
      (build calls).methods[index]? = some m ∧
      m.ref = r ∧ m.args = args ∧ m.maxLocals = maxLocals ∧
      (build calls).methodCode config.storageFlag m =
        .ok ((empty.perform before).readBack config.storageFlag (build calls)
          code.size) ∧
      ((build calls).code.size < UInt32.size →
        UInt32.ofNat (empty.perform before).position &&&
          config.storageFlag = 0 →
        (build calls).methodCode config.storageFlag m = .ok code) ∧
      (config.codeSize ≤ config.storageFlag.toNat →
        (build calls).methodCode config.storageFlag m = .ok code) := by
  have hvalid := Config.valid_of_check hconfig
  have hwell := (Image.check_iff_wellFormed hconfig).1 himage
  have hperform : empty.perform calls =
      ((empty.perform before).addMethod r args maxLocals code).perform
        after := by
    rw [hcalls]
    exact List.foldl_append
  have htagged : (empty.perform before).TaggedWith config.storageFlag := by
    refine perform_taggedWith ?_ ?_
    · intro hstorage
      cases hstorage
    · exact fun tag htag => hflags tag (hcalls ▸ List.mem_append_left _ htag)
  generalize empty.perform before = b at hperform htagged
  have hincludes : Includes (build calls) b
      (b.newMethod r args maxLocals code) code := by
    rw [build, hperform]
    exact includes_addMethod (perform_startsWith _ _)
  have hcode := methodCode_newMethod hvalid hwell htagged hincludes.method_mem
  obtain ⟨index, hfound, hentry⟩ :=
    Image.findMethod_of_mem hwell.distinctMethods hincludes.method_mem
  refine ⟨index, _, hfound, hentry, rfl, rfl, rfl, hcode, ?_, ?_⟩
  · intro hsize hclear
    rw [hcode, hincludes.readBack_eq hsize hclear]
  · intro hsize
    rw [hcode, hincludes.readBack_eq_of_le hvalid
      (Nat.le_trans hwell.code_le hsize)]

/-- Both profiles keep it as small as that. -/
example : Config.unix.codeSize ≤ Config.unix.storageFlag.toNat ∧
    Config.asuro.codeSize ≤ Config.asuro.storageFlag.toNat := by
  decide

/-- The flag of this configuration is a bit that positions in its code region
have. -/
def lowFlag : Config := { Config.unix with storageFlag := 4 }

/-- Two methods that return a number, the second of them at position 4. -/
def twoNumbers : List Call :=
  [.addClass ⟨0, none, 0⟩, .addMethod ⟨0, 0⟩ 0 0 #[0x04, 0xac],
    .addMethod ⟨0, 1⟩ 0 0 #[0x05, 0xac], .setMain ⟨0, 1⟩]

/-- The first method gets its code back.  For the second one the code of the
first one is read. -/
theorem build_methodCode_twoNumbers :
    lowFlag.check = .ok () ∧ (build twoNumbers).check lowFlag = .ok () ∧
    (∃ index m, (build twoNumbers).findMethod? ⟨0, 0⟩ = some index ∧
      (build twoNumbers).methods[index]? = some m ∧
      (build twoNumbers).methodCode 4 m = .ok #[0x04, 0xac]) ∧
    ∃ index m, (build twoNumbers).findMethod? ⟨0, 1⟩ = some index ∧
      (build twoNumbers).methods[index]? = some m ∧
      (build twoNumbers).methodCode 4 m = .ok #[0x04, 0xac] := by
  have hconfig : lowFlag.check = .ok () := by decide +kernel
  have himage : (build twoNumbers).check lowFlag = .ok () := by decide +kernel
  have hflags : ∀ tag, Call.persistent tag ∈ twoNumbers →
      tag = lowFlag.storageFlag := by
    intro tag htag
    simp [twoNumbers] at htag
  refine ⟨hconfig, himage, ?_, ?_⟩
  · have hcalls : twoNumbers = [.addClass ⟨0, none, 0⟩] ++
        .addMethod ⟨0, 0⟩ 0 0 #[0x04, 0xac] :: twoNumbers.drop 2 := rfl
    obtain ⟨index, m, hfound, hentry, -, -, -, -, hcode, -⟩ :=
      build_methodCode hconfig hcalls hflags himage
    exact ⟨index, m, hfound, hentry, hcode (by decide) (by decide)⟩
  · have hcalls : twoNumbers = twoNumbers.take 2 ++
        .addMethod ⟨0, 1⟩ 0 0 #[0x05, 0xac] :: [.setMain ⟨0, 1⟩] := rfl
    obtain ⟨index, m, hfound, hentry, -, -, -, hcode, -⟩ :=
      build_methodCode hconfig hcalls hflags himage
    have hread : (empty.perform (twoNumbers.take 2)).readBack 4
        (build twoNumbers) 2 = #[0x04, 0xac] := by decide +kernel
    exact ⟨index, m, hfound, hentry, hcode.trans (congrArg Except.ok hread)⟩

end ImageBuilder

end SlotVm
