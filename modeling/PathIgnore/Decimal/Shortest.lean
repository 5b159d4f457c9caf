import PathIgnore.Decimal.Binary64
import PathIgnore.Decimal.Digits

/-!
# The shortest decimal that reads back

A binary number is written with the fewest decimal digits that read back as the same number, and of
those with the digits nearest to it. For one digit, two, and so on, the two neighbours of the number
on that decimal grid are tried; the first grid on which one reads back decides.

The digits are written positionally from 10^-4 to below 10^16 and with an exponent of at least two
digits elsewhere. A whole number keeps a `.0`.
-/

namespace PathIgnore

/-- The decimal number `digits * 10 ^ exponent`. -/
structure Decimal where
  digits : Nat
  exponent : Int
  deriving DecidableEq, Repr

namespace Decimal

/-- The exponent of the first decimal digit of a positive fraction. -/
def leadingExponent (num den : Nat) : Int :=
  let guess := ((digitText num).length : Int) - (digitText den).length
  let (n, d) := Binary64.scaleBy 10 num den guess
  if n < d then guess - 1 else guess

/-- The fraction `m * 2 ^ e`. -/
def fractionOf (m : Nat) : Int → Nat × Nat
  | .ofNat k => (m * Nat.pow 2 k, 1)
  | .negSucc k => (m, Nat.pow 2 (k + 1))

/-- The neighbour of `num / den` on the grid of step `10 ^ unit` that reads back as `x`; the nearer one
if both do, the even one at a tie. -/
def onGrid? (x : Binary64) (num den : Nat) (unit : Int) : Option Decimal :=
  let (n, d) := Binary64.scaleBy 10 num den unit
  let below := n / d
  let readsBack (c : Nat) : Bool := Binary64.ofDecimal false c unit == x
  if readsBack below then
    if readsBack (below + 1) then some ⟨Binary64.roundDiv n d, unit⟩ else some ⟨below, unit⟩
  else if readsBack (below + 1) then some ⟨below + 1, unit⟩
  else none

/-- The shortest decimal that reads back as `m * 2 ^ e`. Seventeen digits always do. -/
def shortest (m : Nat) (e : Int) : Decimal :=
  let (num, den) := fractionOf m e
  let lead := leadingExponent num den
  ((List.range 17).findSome? fun i : Nat =>
    onGrid? (.finite false m e) num den (lead - i)).getD ⟨0, 0⟩

/-- The digits without the zeros at their end, and the place of the point after the first of them. -/
def scientific (d : Decimal) : Text × Int :=
  let text := digitText d.digits
  (Text.dropEndWhile (· == '0') text, d.exponent + text.length - 1)

/-- Digits with a point after the place of `10 ^ 0`, `first` being the exponent of the first digit. -/
def positional (digits : Text) (first : Int) : Text :=
  if first < 0 then
    ['0', '.'] ++ List.replicate (-first - 1).toNat '0' ++ digits
  else
    let whole := first.toNat + 1
    let padded := digits ++ List.replicate (whole - digits.length) '0'
    let fraction := padded.drop whole
    padded.take whole ++ '.' :: (if fraction.isEmpty then ['0'] else fraction)

/-- Digits with a point after the first and the exponent of the first digit after them. -/
def withExponent (digits : Text) (first : Int) : Text :=
  let exponent := digitText first.natAbs
  digits.take 1 ++ (if digits.length ≤ 1 then [] else '.' :: digits.drop 1) ++
    ['e', if first < 0 then '-' else '+'] ++ List.replicate (2 - exponent.length) '0' ++ exponent

/-- The text of a positive decimal. -/
def toText (d : Decimal) : Text :=
  let (digits, first) := d.scientific
  if -4 ≤ first ∧ first < 16 then positional digits first else withExponent digits first

end Decimal

/-- The shortest text that reads back as the number. -/
def Binary64.toText : Binary64 → Text
  | finite negative m e =>
    (if negative then ['-'] else []) ++
      (if m = 0 then "0.0".toList else (Decimal.shortest m e).toText)
  | infinity negative => (if negative then ['-'] else []) ++ "inf".toList
  | nan => "nan".toList

example : (Binary64.ofDecimal false 1 (-1)).toText = "0.1".toList := by decide +kernel

example : (Binary64.ofDecimal true 15 15).toText = "-1.5e+16".toList := by decide +kernel

end PathIgnore
