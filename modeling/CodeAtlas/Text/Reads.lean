import CodeAtlas.Text.Affix
import CodeAtlas.Text.Numeric

/-!
# Readers

A reader takes the characters that are left and gives what it has read together with what follows,
or nothing if the text does not begin with what it looks for. Here are the readers of digits that
several formats share.
-/

set_option autoImplicit false

namespace CodeAtlas.Text

/-- A reader of a part of a text. -/
abbrev Reads (α : Type) := List Char → Option (α × List Char)

/-- The number that digits stand for. -/
def ofDigits (base : Nat) (digits : List Nat) : Nat := digits.foldl (fun n d => n * base + d) 0

/-- The decimal digits that a text begins with. -/
def digitsOf (cs : List Char) : List Nat := (cs.takeWhile isDigit).map fun c => c.toNat - '0'.toNat

/-- Digits after which the text goes on; at least one. -/
def readDigits : Reads (List Nat) := fun cs =>
  match digitsOf cs with
  | [] => none
  | digits => some (digits, cs.dropWhile isDigit)

/-- The value of a hexadecimal digit in either case. -/
def hexValue? (c : Char) : Option Nat :=
  if isDigit c then some (c.toNat - '0'.toNat)
  else if 'a' ≤ c && c ≤ 'f' then some (c.toNat - 'a'.toNat + 10)
  else if 'A' ≤ c && c ≤ 'F' then some (c.toNat - 'A'.toNat + 10)
  else none

/-- The number that a text of decimal digits stands for; the text holds nothing else. -/
def natOfDigits? (cs : List Char) : Option Nat :=
  match readDigits cs with
  | some (digits, []) => some (ofDigits 10 digits)
  | _ => none

end CodeAtlas.Text
