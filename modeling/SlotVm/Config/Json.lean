import SlotVm.Config.Basic
import SlotVm.Json.Reader
import SlotVm.Json.Record

/-!
# The JSON form of configurations

A missing field takes the value that it has in the profile `Config.unix`.
A group of settings that is present fills its own missing fields:
`features` with everything but floats, `families` with none, and `native`
with the standard ids.
-/

namespace SlotVm

/-- Names of the word widths. -/
def Width.names : List (String × Width) :=
  [("word16", .word16), ("word32", .word32)]

/-- Names of the residue policies. -/
def ResiduePolicy.names : List (String × ResiduePolicy) :=
  [("verify", .verify), ("discard", .discard), ("retain", .retain)]

/-- The name of a word width. -/
def Width.name : Width → String
  | word16 => "word16"
  | word32 => "word32"

/-- The name of a residue policy. -/
def ResiduePolicy.name : ResiduePolicy → String
  | verify => "verify"
  | discard => "discard"
  | retain => "retain"

/-! ## Reading -/

/-- What a group of features has unless it says otherwise. -/
def Features.fallback : Features :=
  { arrays := true, switch := true, inheritance := true, float := false }

/-- What a group of families has unless it says otherwise. -/
def FamilySet.fallback : FamilySet :=
  { stdio := false, avr := false, lcd := false, asuro := false }

/-- What a native range has unless it says otherwise. -/
def NativeRange.fallback : NativeRange := ⟨16, 8⟩

/-- Reads a group of features. -/
def Features.ofJson? (j : Json) : Option Features := do
  let [arrays, switch, inheritance, float] ←
      j.fields? ["arrays", "switch", "inheritance", "float"]
    | none
  let base := Features.fallback
  return {
    arrays := ← Json.orElse Json.bool? base.arrays arrays
    switch := ← Json.orElse Json.bool? base.switch switch
    inheritance := ← Json.orElse Json.bool? base.inheritance inheritance
    float := ← Json.orElse Json.bool? base.float float }

/-- Reads a group of families. -/
def FamilySet.ofJson? (j : Json) : Option FamilySet := do
  let [stdio, avr, lcd, asuro] ←
      j.fields? ["stdio", "avr", "lcd", "asuro"]
    | none
  let base := FamilySet.fallback
  return {
    stdio := ← Json.orElse Json.bool? base.stdio stdio
    avr := ← Json.orElse Json.bool? base.avr avr
    lcd := ← Json.orElse Json.bool? base.lcd lcd
    asuro := ← Json.orElse Json.bool? base.asuro asuro }

/-- Reads a native range. -/
def NativeRange.ofJson? (j : Json) : Option NativeRange := do
  let [classBase, methodBits] ← j.fields? ["class_base", "method_bits"]
    | none
  let base := NativeRange.fallback
  return {
    classBase := ← Json.orElse Json.uint16? base.classBase classBase
    methodBits := ← Json.orElse Json.uint8? base.methodBits methodBits }

namespace Config

/-- The fields of a configuration, in order. -/
def fieldNames : List String :=
  ["code_size", "heap_size", "stack_size", "max_call_depth", "word",
    "features", "stack_check", "nvmfile_flag", "native", "families", "trace"]

/-- Reads a configuration without checking it. -/
def ofJson? (j : Json) : Option Config := do
  let [codeSize, heapSize, stackSize, maxCallDepth, word, features, residue,
      storageFlag, native, families, trace] ← j.fields? fieldNames
    | none
  let base := Config.unix
  return {
    codeSize := ← Json.orElse Json.size? base.codeSize codeSize
    heapSize := ← Json.orElse Json.size? base.heapSize heapSize
    stackSize := ← Json.orElse Json.size? base.stackSize stackSize
    maxCallDepth := ← Json.orElse Json.size? base.maxCallDepth maxCallDepth
    word := ← Json.orElse (Json.name? Width.names) base.word word
    features := ← Json.orElse Features.ofJson? base.features features
    residue :=
      ← Json.orElse (Json.name? ResiduePolicy.names) base.residue residue
    storageFlag := ← Json.orElse Json.uint32? base.storageFlag storageFlag
    native := ← Json.orElse NativeRange.ofJson? base.native native
    families := ← Json.orElse FamilySet.ofJson? base.families families
    trace := ← Json.orElse Json.bool? base.trace trace }

/-- The configuration that a text writes, if it is consistent. -/
def parse (text : String) : Except Fault Config := do
  match Json.parse? text >>= ofJson? with
  | none => throw (.invalidConfig .malformedText)
  | some c =>
      c.check
      return c

end Config

/-! ## Writing -/

/-- The members of a group of features. -/
def Features.toJson (f : Features) : Json :=
  .record [("arrays", .bool f.arrays), ("switch", .bool f.switch),
    ("inheritance", .bool f.inheritance), ("float", .bool f.float)]

/-- The members of a group of families. -/
def FamilySet.toJson (f : FamilySet) : Json :=
  .record [("stdio", .bool f.stdio), ("avr", .bool f.avr),
    ("lcd", .bool f.lcd), ("asuro", .bool f.asuro)]

/-- The members of a native range. -/
def NativeRange.toJson (n : NativeRange) : Json :=
  .record [("class_base", .ofNat n.classBase.toNat),
    ("method_bits", .ofNat n.methodBits.toNat)]

/-- The members of a configuration, in order. -/
def Config.members (c : Config) : List (String × Json) :=
  [("code_size", .ofNat c.codeSize), ("heap_size", .ofNat c.heapSize),
    ("stack_size", .ofNat c.stackSize),
    ("max_call_depth", .ofNat c.maxCallDepth),
    ("word", .ofString c.word.name), ("features", c.features.toJson),
    ("stack_check", .ofString c.residue.name),
    ("nvmfile_flag", .ofNat c.storageFlag.toNat),
    ("native", c.native.toJson), ("families", c.families.toJson),
    ("trace", .bool c.trace)]

/-- The JSON form of a configuration. -/
def Config.toJson (c : Config) : Json := .record c.members

end SlotVm
