import SlotVm.Json.Single

/-!
# Reading records from JSON

A record is written as an object or as a list.  In an object the known
members may stand in any order, none of them twice, and unknown ones are
ignored.  In a list the fields stand in their order; fields at the end may
be missing.  `Json.fields?` gives the fields in order, and `orElse` and
`required` read one field with or without a default.
-/

namespace SlotVm.Json

/-! ## Scalars -/

/-- An integer in a range. -/
def intIn? (low high : Int) : Json → Option Int
  | number n => n.int?.filter fun i => low ≤ i && i ≤ high
  | _ => none

/-- A natural number below `2 ^ bits`. -/
def nat? (bits : Nat) (j : Json) : Option Nat :=
  (j.intIn? 0 ((1 <<< bits : Nat) - 1)).map Int.toNat

def uint8? (j : Json) : Option UInt8 := (j.nat? 8).map UInt8.ofNat

def uint16? (j : Json) : Option UInt16 := (j.nat? 16).map UInt16.ofNat

def uint32? (j : Json) : Option UInt32 := (j.nat? 32).map UInt32.ofNat

/-- A size, which fits 64 bits. -/
def size? (j : Json) : Option Nat := j.nat? 64

def int32? (j : Json) : Option Int32 :=
  (j.intIn? (-0x80000000) 0x7fffffff).map Int32.ofInt

def single? : Json → Option Float32
  | number n => n.single?
  | _ => none

def bool? : Json → Option Bool
  | bool b => some b
  | _ => none

/-- A text that is a sequence of characters. -/
def string? : Json → Option String
  | text content => content
  | _ => none

/-- A list, read element by element. -/
def listOf? {α : Type} (read : Json → Option α) : Json → Option (List α)
  | list elements => elements.mapM read
  | _ => none

/-- A value or null. -/
def nullable? {α : Type} (read : Json → Option α) : Json → Option (Option α)
  | null => some none
  | j => (read j).map some

/-- One of several names, as a text or as an object with null behind the
name. -/
def name? {α : Type} (names : List (String × α)) : Json → Option α
  | text (some s) => names.lookup s
  | object [(some s, null)] => names.lookup s
  | _ => none

/-! ## Records -/

/-- The members of an object, if all of them have names. -/
def named? (members : List (Option String × Json)) :
    Option (List (String × Json)) :=
  members.mapM fun (name, j) => name.map (·, j)

/-- The value of a member that must not stand twice: `none` if it does. -/
def member? (members : List (String × Json)) (name : String) :
    Option (Option Json) :=
  match members.filter (·.1 == name) with
  | [] => some none
  | [(_, j)] => some (some j)
  | _ => none

/-- The fields of a record with the given names, in their order. -/
def fields? (names : List String) : Json → Option (List (Option Json))
  | object members => do
      let members ← named? members
      names.mapM (member? members)
  | list elements =>
      if elements.length ≤ names.length then
        some (elements.map some
          ++ List.replicate (names.length - elements.length) none)
      else
        none
  | _ => none

/-- Reads a field that may be missing. -/
def orElse {α : Type} (read : Json → Option α) (fallback : α) :
    Option Json → Option α
  | some j => read j
  | none => some fallback

/-- Reads a field that must be there. -/
def required {α : Type} (read : Json → Option α) (field : Option Json) :
    Option α :=
  field >>= read

/-- A number is in range: a whole one that fits 64 bits as it is, any other
one in double precision. -/
def Number.isInRange (n : Number) : Bool :=
  (n.isWhole && natOfDigits n.whole < Number.significandBound)
    || n.double?.isSome

/-- The value can be kept for later: its texts and names are sequences of
characters, its numbers are in range and it is nested no deeper than
`depth`. -/
def isKeepable : Nat → Json → Bool
  | _, null | _, bool _ => true
  | _, text content => content.isSome
  | _, number n => n.isInRange
  | 0, list _ | 0, object _ => false
  | depth + 1, list elements => elements.all (isKeepable depth)
  | depth + 1, object members =>
      members.all fun (name, v) => name.isSome && isKeepable depth v

end SlotVm.Json
