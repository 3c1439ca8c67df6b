import SlotVm.Fault
import SlotVm.Text.Printable

/-!
# Quoted text

A text in a listing stands between double quotes.  Quotes, backslashes and
the usual control characters are escaped by a letter, and all other
characters that are not printable by their number.
-/

namespace SlotVm.Text

/-- The opening of an escape by number. -/
def numberOpening : List Char := ['\\', 'u', '\x7b']

/-- The written form of one character. -/
def quotedChar (c : Char) : List Char :=
  match c with
  | '\x00' => ['\\', '0']
  | '\t' => ['\\', 't']
  | '\r' => ['\\', 'r']
  | '\n' => ['\\', 'n']
  | '"' => ['\\', '"']
  | '\\' => ['\\', '\\']
  | _ =>
      if isPrintable c then [c]
      else numberOpening ++ Nat.toDigits 16 c.toNat ++ ['\x7d']

/-- A text between quotes. -/
def quoted (text : String) : String :=
  String.ofList ('"' :: text.toList.flatMap quotedChar ++ ['"'])

end SlotVm.Text
