/-!
# JSON values

A `Json` value keeps what its text says and decides nothing: a number is
kept as it is written, members stay in order, and a repeated member name is
kept too.  What a number means, and which repetitions are refused, depends
on who reads the value.

A text with a surrogate escape that has no partner is no sequence of
characters.  It is kept as a text without content, and a member with such a
name as one without a name, so that only a reader who needs the content or
the name refuses it.
-/

namespace SlotVm

/-- A number as it is written. -/
structure Json.Number where
  negative : Bool
  /-- Digits in front of the point, at least one. -/
  whole : List Char
  /-- Digits behind the point; none if there is no point. -/
  fraction : List Char
  /-- Sign and digits of the exponent; none if there is no exponent. -/
  exponent : List Char
deriving DecidableEq

/-- A JSON value. -/
inductive Json where
  | null
  | bool (value : Bool)
  | number (value : Json.Number)
  | text (content : Option String)
  | list (elements : List Json)
  | object (members : List (Option String × Json))

namespace Json

/-- The number that decimal digits write. -/
def natOfDigits (digits : List Char) : Nat :=
  digits.foldl (fun n c => n * 10 + (c.toNat - '0'.toNat)) 0

namespace Number

/-- The written form of an integer. -/
def ofInt (n : Int) : Number where
  negative := n < 0
  whole := Nat.toDigits 10 n.natAbs
  fraction := []
  exponent := []

/-- Neither a point nor an exponent is written. -/
def isWhole (n : Number) : Bool := n.fraction.isEmpty && n.exponent.isEmpty

/-- The integer that a whole number writes.  A negative zero is none. -/
def int? (n : Number) : Option Int :=
  let magnitude := natOfDigits n.whole
  if !n.isWhole then none
  else if !n.negative then some magnitude
  else if magnitude = 0 then none
  else some (-magnitude)

/-- The characters of a number. -/
def chars (n : Number) : List Char :=
  (if n.negative then ['-'] else []) ++ n.whole
    ++ (if n.fraction.isEmpty then [] else '.' :: n.fraction)
    ++ (if n.exponent.isEmpty then [] else 'e' :: n.exponent)

end Number

/-- An integer. -/
def ofInt (n : Int) : Json := .number (.ofInt n)

/-- A natural number. -/
def ofNat (n : Nat) : Json := ofInt n

/-- A text. -/
def ofString (s : String) : Json := .text (some s)

/-- An object with the given members. -/
def record (members : List (String × Json)) : Json :=
  .object (members.map fun (name, j) => (some name, j))

end Json

end SlotVm
