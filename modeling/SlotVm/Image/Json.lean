import SlotVm.Decimal.Layout
import SlotVm.Image.Basic
import SlotVm.Json.Printer
import SlotVm.Json.Reader
import SlotVm.Json.Record

/-!
# The JSON form of images

Only the entry point of an image, the id of a class, and the ids and the
body of a method must be written; everything else has a default.  The body
of a method names its kind in the member `kind`, which may stand anywhere
among its members.
-/

namespace SlotVm

/-! ## Reading -/

/-- Reads a method reference. -/
def MethodRef.ofJson? (j : Json) : Option MethodRef := do
  let [classId, methodId] ← j.fields? ["class_id", "method_id"] | none
  return {
    classId := ← Json.required Json.uint16? classId
    methodId := ← Json.required Json.uint16? methodId }

/-- Reads a class. -/
def ClassDescriptor.ofJson? (j : Json) : Option ClassDescriptor := do
  let [id, parent, fields] ← j.fields? ["id", "parent", "fields"] | none
  return {
    id := ← Json.required Json.uint16? id
    parent := ← Json.orElse (Json.nullable? Json.uint16?) none parent
    fields := ← Json.orElse Json.uint16? 0 fields }

namespace MethodBody

/-- The two kinds of bodies. -/
inductive Kind where
  | bytecode
  | native

/-- Names of the kinds. -/
def kindNames : List (String × Kind) :=
  [("bytecode", .bytecode), ("native", .native)]

/-- How deep the members of a body may be nested: a body is the fourth
level of an image, which may have 127. -/
def depthLimit : Nat := 123

/-- Reads the place of the code. -/
def ofPlace? (address len : Option Json) : Option MethodBody := do
  return .bytecode (← Json.required Json.uint32? address)
    (← Json.required Json.uint32? len)

/-- Reads a body.  Its members are kept until the kind is known, so even
those that are ignored must be in order.  As a list, a body has exactly its
own fields. -/
def ofJson? : Json → Option MethodBody
  | .object members => do
      let members ← Json.named? members
      let kind ← (← Json.member? members "kind") >>= Json.string?
      let others := members.filter (·.1 != "kind")
      if others.any fun (_, v) => !v.isKeepable depthLimit then
        none
      match ← kindNames.lookup kind with
      | .native => return .native
      | .bytecode =>
          ofPlace? (← Json.member? others "address")
            (← Json.member? others "len")
  | .list [.text (some "native")] => some .native
  | .list [.text (some "bytecode"), address, len] =>
      ofPlace? (some address) (some len)
  | _ => none

end MethodBody

/-- Reads a method. -/
def MethodDescriptor.ofJson? (j : Json) : Option MethodDescriptor := do
  let [classId, methodId, args, maxLocals, maxStack, body] ←
      j.fields? ["class_id", "method_id", "args", "max_locals", "max_stack",
        "body"]
    | none
  return {
    classId := ← Json.required Json.uint16? classId
    methodId := ← Json.required Json.uint16? methodId
    args := ← Json.orElse Json.uint8? 0 args
    maxLocals := ← Json.orElse Json.uint8? 0 maxLocals
    maxStack := ← Json.orElse Json.uint8? 0 maxStack
    body := ← Json.required MethodBody.ofJson? body }

/-- Reads a constant, an object with one member that is named for its
kind. -/
def Constant.ofJson? : Json → Option Constant
  | .object [(some "int", j)] => j.int32?.map .int
  | .object [(some "float", j)] => j.single?.map .float
  | .object [(some "str", j)] => j.string?.map .str
  | _ => none

namespace Image

/-- The fields of an image, in order. -/
def fieldNames : List String :=
  ["classes", "methods", "constants", "code", "static_fields", "main"]

/-- Reads an image. -/
def ofJson? (j : Json) : Option Image := do
  let [classes, methods, constants, code, staticFields, main] ←
      j.fields? fieldNames
    | none
  return {
    classes := ← Json.orElse (Json.listOf? ClassDescriptor.ofJson?) [] classes
    methods :=
      (← Json.orElse (Json.listOf? MethodDescriptor.ofJson?) []
        methods).toArray
    constants :=
      (← Json.orElse (Json.listOf? Constant.ofJson?) [] constants).toArray
    code := (← Json.orElse (Json.listOf? Json.uint8?) [] code).toArray
    staticFields := ← Json.orElse Json.uint16? 0 staticFields
    main := ← Json.required MethodRef.ofJson? main }

/-- The image that a text writes. -/
def parse (text : String) : Except Fault Image :=
  match Json.parse? text >>= ofJson? with
  | some image => .ok image
  | none => .error (.invalidImage .malformedText)

end Image

/-! ## Writing -/

/-- The members of a method reference. -/
def MethodRef.toJson (r : MethodRef) : Json :=
  .record [("class_id", .ofNat r.classId.toNat),
    ("method_id", .ofNat r.methodId.toNat)]

/-- The members of a class. -/
def ClassDescriptor.toJson (c : ClassDescriptor) : Json :=
  let parent := match c.parent with
    | some p => Json.ofNat p.toNat
    | none => .null
  .record [("id", .ofNat c.id.toNat), ("parent", parent),
    ("fields", .ofNat c.fields.toNat)]

/-- The members of a body. -/
def MethodBody.toJson : MethodBody → Json
  | bytecode address len =>
      .record [("kind", .ofString "bytecode"),
        ("address", .ofNat address.toNat), ("len", .ofNat len.toNat)]
  | native => .record [("kind", .ofString "native")]

/-- The members of a method. -/
def MethodDescriptor.toJson (m : MethodDescriptor) : Json :=
  .record [("class_id", .ofNat m.classId.toNat),
    ("method_id", .ofNat m.methodId.toNat), ("args", .ofNat m.args.toNat),
    ("max_locals", .ofNat m.maxLocals.toNat),
    ("max_stack", .ofNat m.maxStack.toNat), ("body", m.body.toJson)]

/-- A single-precision number, or null for what JSON cannot write. -/
def singleToJson (x : Float32) : Json :=
  match Json.scanNumber (Decimal.Layout.stored.text x).toList with
  | some (n, _) => .number n
  | none => .null

/-- The member of a constant. -/
def Constant.toJson : Constant → Json
  | int n => .record [("int", .ofInt n.toInt)]
  | float x => .record [("float", singleToJson x)]
  | str text => .record [("str", .ofString text)]

namespace Image

/-- The JSON form of an image. -/
def toJson (image : Image) : Json :=
  .record [("classes", .list (image.classes.map (·.toJson))),
    ("methods", .list (image.methods.toList.map (·.toJson))),
    ("constants", .list (image.constants.toList.map (·.toJson))),
    ("code", .list (image.code.toList.map fun b => .ofNat b.toNat)),
    ("static_fields", .ofNat image.staticFields.toNat),
    ("main", image.main.toJson)]

/-- The text of an image, which `parse` reads. -/
def print (image : Image) : String := image.toJson.pretty

end Image

end SlotVm
