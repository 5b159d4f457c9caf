import PathIgnore.Text.Basic

/-!
# Decimal digits

Numbers written with decimal digits. An integer that is read from a text or written as one may have
`maxDigits` digits at most.
-/

namespace PathIgnore.Decimal

/-- Whether the character is a decimal digit. -/
def isDigit (c : Char) : Bool := 48 ≤ c.toNat && c.toNat ≤ 57

/-- The number that decimal digits write. -/
def digitsValue (t : Text) : Nat := t.foldl (fun n c => n * 10 + (c.toNat - 48)) 0

/-- The decimal digits of a number, the first one first. -/
def digitText (n : Nat) : Text := Nat.toDigits 10 n

/-- Digits that an integer may have at most. -/
def maxDigits : Nat := 4300

/-- An integer in decimal; none if it has too many digits. -/
def integerText? (n : Int) : Option Text :=
  let digits := digitText n.natAbs
  if maxDigits < digits.length then none
  else some ((if n < 0 then ['-'] else []) ++ digits)

end PathIgnore.Decimal
