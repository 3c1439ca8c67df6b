import SlotVm.Json.Basic

/-!
# Reading JSON

`Json.parse?` reads one value from a text that holds nothing else but
blanks.  It accepts the JSON grammar and nothing more: no trailing commas,
no comments, no leading zeros and no raw control characters in texts.

Member names must be sequences of characters; a text that is not is read as
a text without content.
-/

namespace SlotVm.Json

/-- Blank, tab, line feed and carriage return stand between tokens. -/
def isBlank (c : Char) : Bool :=
  c == ' ' || c == '\t' || c == '\n' || c == '\r'

/-- The characters behind the leading blanks. -/
def skipBlanks (cs : List Char) : List Char := cs.dropWhile isBlank

/-! ## Numbers -/

/-- The fraction of a number, if there is one, and what follows.  A point
needs a digit behind it. -/
def scanFraction (cs : List Char) : Option (List Char × List Char) :=
  match cs with
  | '.' :: rest =>
      let (digits, rest) := rest.span Char.isDigit
      if digits.isEmpty then none else some (digits, rest)
  | _ => some ([], cs)

/-- The digits of an exponent behind its sign. -/
def scanExponentDigits (sign : List Char) (cs : List Char) :
    Option (List Char × List Char) :=
  let (digits, rest) := cs.span Char.isDigit
  if digits.isEmpty then none else some (sign ++ digits, rest)

/-- The exponent of a number, if there is one, and what follows. -/
def scanExponent (cs : List Char) : Option (List Char × List Char) :=
  match cs with
  | c :: rest =>
      if c == 'e' || c == 'E' then
        match rest with
        | '+' :: rest => scanExponentDigits ['+'] rest
        | '-' :: rest => scanExponentDigits ['-'] rest
        | _ => scanExponentDigits [] rest
      else
        some ([], cs)
  | [] => some ([], cs)

/-- A number without its sign, and what follows.  The first of several
digits is not a zero. -/
def scanMagnitude (negative : Bool) (cs : List Char) :
    Option (Number × List Char) := do
  let (whole, rest) := cs.span Char.isDigit
  if whole.isEmpty || (whole.head? == some '0' && whole.length != 1) then
    none
  let (fraction, rest) ← scanFraction rest
  let (exponent, rest) ← scanExponent rest
  return (⟨negative, whole, fraction, exponent⟩, rest)

/-- A number and what follows. -/
def scanNumber (cs : List Char) : Option (Number × List Char) :=
  match cs with
  | '-' :: rest => scanMagnitude true rest
  | _ => scanMagnitude false cs

/-! ## Texts -/

/-- The value of a hexadecimal digit. -/
def hexDigit? (c : Char) : Option Nat :=
  if '0' ≤ c ∧ c ≤ '9' then some (c.toNat - '0'.toNat)
  else if 'a' ≤ c ∧ c ≤ 'f' then some (c.toNat - 'a'.toNat + 10)
  else if 'A' ≤ c ∧ c ≤ 'F' then some (c.toNat - 'A'.toNat + 10)
  else none

/-- The 16-bit unit that four hexadecimal digits write. -/
def hexUnit? (a b c d : Char) : Option Nat := do
  return (((← hexDigit? a) * 16 + (← hexDigit? b)) * 16 + (← hexDigit? c)) * 16
    + (← hexDigit? d)

/-- The character of an escape by one letter. -/
def letterEscape? (c : Char) : Option Char :=
  match c with
  | '"' => some '"'
  | '\\' => some '\\'
  | '/' => some '/'
  | 'b' => some '\x08'
  | 'f' => some '\x0c'
  | 'n' => some '\n'
  | 'r' => some '\r'
  | 't' => some '\t'
  | _ => none

/-- The first half of a pair of units. -/
def isHighSurrogate (n : Nat) : Bool := 0xd800 ≤ n && n ≤ 0xdbff

/-- The second half of a pair of units. -/
def isLowSurrogate (n : Nat) : Bool := 0xdc00 ≤ n && n ≤ 0xdfff

/-- The character that two units write. -/
def pairChar (high low : Nat) : Char :=
  Char.ofNat (0x10000 + (high - 0xd800) * 0x400 + (low - 0xdc00))

/-- What has been read of a text. -/
structure TextSoFar where
  /-- The characters, the latest first. -/
  latest : List Char
  /-- A first half of a pair that ends what has been read. -/
  high : Option Nat
  /-- All other halves had a partner. -/
  intact : Bool

namespace TextSoFar

/-- Nothing has been read. -/
def empty : TextSoFar := ⟨[], none, true⟩

/-- Adds a character. -/
def push (t : TextSoFar) (c : Char) : TextSoFar :=
  ⟨c :: t.latest, none, t.intact && t.high.isNone⟩

/-- Adds a 16-bit unit. -/
def pushUnit (t : TextSoFar) (n : Nat) : TextSoFar :=
  if isHighSurrogate n then
    { t with high := some n, intact := t.intact && t.high.isNone }
  else if isLowSurrogate n then
    match t.high with
    | some high => { t with latest := pairChar high n :: t.latest, high := none }
    | none => { t with intact := false }
  else
    t.push (Char.ofNat n)

/-- The characters, unless a half had no partner. -/
def content (t : TextSoFar) : Option String :=
  if t.intact && t.high.isNone then some (String.ofList t.latest.reverse)
  else none

end TextSoFar

/-- The rest of a text, up to its closing quote, and what follows. -/
def scanText (t : TextSoFar) :
    List Char → Option (Option String × List Char)
  | [] => none
  | '"' :: rest => some (t.content, rest)
  | '\\' :: 'u' :: a :: b :: c :: d :: rest =>
      match hexUnit? a b c d with
      | some n => scanText (t.pushUnit n) rest
      | none => none
  | '\\' :: c :: rest =>
      match letterEscape? c with
      | some e => scanText (t.push e) rest
      | none => none
  | c :: rest => if c < ' ' then none else scanText (t.push c) rest

/-! ## Values -/

/-- How a value is read from the front of a text. -/
abbrev Scan := List Char → Option (Json × List Char)

/-- The elements of a list that is not empty, behind its opening bracket. -/
def scanElements (scan : Scan) :
    Nat → List Json → List Char → Option (Json × List Char)
  | 0, _, _ => none
  | fuel + 1, read, cs =>
      match scan (skipBlanks cs) with
      | none => none
      | some (v, rest) =>
          match skipBlanks rest with
          | ',' :: rest => scanElements scan fuel (v :: read) rest
          | ']' :: rest => some (.list (v :: read).reverse, rest)
          | _ => none

/-- One member of an object, from its name on. -/
def scanMember (scan : Scan) (cs : List Char) :
    Option ((Option String × Json) × List Char) :=
  match skipBlanks cs with
  | '"' :: rest =>
      match scanText .empty rest with
      | some (name, rest) =>
          match skipBlanks rest with
          | ':' :: rest =>
              match scan (skipBlanks rest) with
              | some (v, rest) => some ((name, v), rest)
              | none => none
          | _ => none
      | _ => none
  | _ => none

/-- The members of an object that is not empty, behind its opening brace. -/
def scanMembers (scan : Scan) :
    Nat → List (Option String × Json) → List Char →
      Option (Json × List Char)
  | 0, _, _ => none
  | fuel + 1, read, cs =>
      match scanMember scan cs with
      | none => none
      | some (m, rest) =>
          match skipBlanks rest with
          | ',' :: rest => scanMembers scan fuel (m :: read) rest
          | '\x7d' :: rest => some (.object (m :: read).reverse, rest)
          | _ => none

/-- A value and what follows.  No list or object has more than `limit`
entries, and values are nested no deeper than the fuel. -/
def scanValue (limit : Nat) : Nat → Scan
  | 0, _ => none
  | fuel + 1, cs =>
      match cs with
      | '[' :: rest =>
          match skipBlanks rest with
          | ']' :: rest => some (.list [], rest)
          | rest => scanElements (scanValue limit fuel) limit [] rest
      | '\x7b' :: rest =>
          match skipBlanks rest with
          | '\x7d' :: rest => some (.object [], rest)
          | rest => scanMembers (scanValue limit fuel) limit [] rest
      | '"' :: rest =>
          match scanText .empty rest with
          | some (content, rest) => some (.text content, rest)
          | none => none
      | 't' :: 'r' :: 'u' :: 'e' :: rest => some (.bool true, rest)
      | 'f' :: 'a' :: 'l' :: 's' :: 'e' :: rest => some (.bool false, rest)
      | 'n' :: 'u' :: 'l' :: 'l' :: rest => some (.null, rest)
      | cs =>
          match scanNumber cs with
          | some (n, rest) => some (.number n, rest)
          | none => none

/-- The value of a text.  A text is longer than any list in it, and longer
than its values are nested. -/
def parse? (s : String) : Option Json :=
  let cs := s.toList
  match scanValue cs.length (cs.length + 1) (skipBlanks cs) with
  | some (v, rest) => if (skipBlanks rest).isEmpty then some v else none
  | none => none

end SlotVm.Json
