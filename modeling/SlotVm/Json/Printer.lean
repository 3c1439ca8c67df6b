import SlotVm.Json.Basic

/-!
# Printing JSON

There are two printed forms.  `Json.pretty` has every element and every
member on a line of its own, two blanks further in than what holds it;
`Json.compact` is one line without blanks.  Quotes, backslashes and control
characters are escaped and all other characters stand for themselves.
-/

namespace SlotVm.Json

/-- The escape of a control character by number. -/
def controlEscape (c : Char) : List Char :=
  ['\\', 'u', '0', '0', Nat.digitChar (c.toNat / 16),
    Nat.digitChar (c.toNat % 16)]

/-- The written form of one character of a text. -/
def escapedChar (c : Char) : List Char :=
  match c with
  | '"' => ['\\', '"']
  | '\\' => ['\\', '\\']
  | '\x08' => ['\\', 'b']
  | '\x0c' => ['\\', 'f']
  | '\n' => ['\\', 'n']
  | '\r' => ['\\', 'r']
  | '\t' => ['\\', 't']
  | _ => if c < ' ' then controlEscape c else [c]

/-- A text between quotes. -/
def quotedText (s : String) : List Char :=
  '"' :: s.toList.flatMap escapedChar ++ ['"']

/-- A line feed and the indentation of a depth. -/
def newline (depth : Nat) : List Char :=
  '\n' :: List.replicate (2 * depth) ' '

/-- Entries on lines of their own between two brackets. -/
def block (opening closing : Char) (depth : Nat) (entries : List (List Char)) :
    List Char :=
  if entries.isEmpty then [opening, closing]
  else
    opening :: List.intercalate [','] (entries.map (newline (depth + 1) ++ ·))
      ++ newline depth ++ [closing]

mutual

/-- The printed form of a value at a depth. -/
def prettyChars (depth : Nat) : Json → List Char
  | null => ['n', 'u', 'l', 'l']
  | bool true => ['t', 'r', 'u', 'e']
  | bool false => ['f', 'a', 'l', 's', 'e']
  | number n => n.chars
  | text content => quotedText (content.getD "")
  | list elements => block '[' ']' depth (prettyElements (depth + 1) elements)
  | object members =>
      block '\x7b' '\x7d' depth (prettyMembers (depth + 1) members)

/-- The printed forms of the elements of a list. -/
def prettyElements (depth : Nat) : List Json → List (List Char)
  | [] => []
  | j :: rest => prettyChars depth j :: prettyElements depth rest

/-- The printed forms of the members of an object. -/
def prettyMembers (depth : Nat) :
    List (Option String × Json) → List (List Char)
  | [] => []
  | (name, j) :: rest =>
      (quotedText (name.getD "") ++ ':' :: ' ' :: prettyChars depth j)
        :: prettyMembers depth rest

end

/-- The printed form of a value. -/
def pretty (j : Json) : String := String.ofList (prettyChars 0 j)

/-! ## One line -/

/-- Puts an entry behind the others of a list or an object. -/
def separated (out entry : String) : String :=
  if out.isEmpty then entry else out ++ "," ++ entry

mutual

/-- The printed form of a value on one line. -/
def compact : Json → String
  | null => "null"
  | bool true => "true"
  | bool false => "false"
  | number n => String.ofList n.chars
  | text content => String.ofList (quotedText (content.getD ""))
  | list elements => "[" ++ compactElements elements "" ++ "]"
  | object members => "\x7b" ++ compactMembers members "" ++ "\x7d"

/-- The elements of a list behind what is printed already. -/
def compactElements : List Json → String → String
  | [], out => out
  | j :: rest, out => compactElements rest (separated out (compact j))

/-- The members of an object behind what is printed already. -/
def compactMembers : List (Option String × Json) → String → String
  | [], out => out
  | (name, j) :: rest, out =>
      compactMembers rest
        (separated out
          (String.ofList (quotedText (name.getD "")) ++ ":" ++ compact j))

end

end SlotVm.Json
