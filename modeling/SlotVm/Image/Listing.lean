import SlotVm.Code.Listing
import SlotVm.Decimal.Layout
import SlotVm.Image.Basic
import SlotVm.Text.Quoted

/-!
# Listings of images

The listing of an image names its entry point and static fields, then its
constants, classes and methods, with the code of each method behind its
head.
-/

namespace SlotVm.Image

/-- A constant in a listing. -/
def constantText : Constant → String
  | .int n => s!"int {n}"
  | .float x => "float " ++ Decimal.Layout.listed.text x
  | .str text => "str " ++ Text.quoted text

/-- A class in a listing. -/
def classText (c : ClassDescriptor) : String :=
  let origin := match c.parent with
    | some parent => s!" extends {parent}"
    | none => ""
  s!"class {c.id}" ++ origin ++ s!" ({c.fields} fields)"

/-- The head of a method in a listing. -/
def methodText (m : MethodDescriptor) : String :=
  s!"method {m.ref} args={m.args} locals={m.maxLocals}"

/-- The lines of a method. -/
def methodLines (image : Image) (config : Config) (m : MethodDescriptor) :
    Except Fault (List String) :=
  match m.body with
  | .native => .ok [methodText m ++ " native"]
  | .bytecode .. => do
      let code ← image.methodCode config.storageFlag m
      let lines ← Code.listing code config.native
      return methodText m :: lines

/-- The lines of an image. -/
def listingLines (image : Image) (config : Config) :
    Except Fault (List String) := do
  let entry := s!"entry {image.main}"
  let statics :=
    if image.staticFields = 0 then [] else [s!"statics {image.staticFields}"]
  let constants := image.constants.toList.zipIdx.map fun (c, i) =>
    s!"const #{i} " ++ constantText c
  let classes := image.classes.map classText
  let methods ← image.methods.toList.mapM (image.methodLines config)
  return entry :: statics ++ constants ++ classes ++ methods.flatten

/-- The listing of an image, with a line feed behind every line. -/
def listing (image : Image) (config : Config) : Except Fault String := do
  let lines ← image.listingLines config
  return String.join (lines.map (· ++ "\n"))

end SlotVm.Image
