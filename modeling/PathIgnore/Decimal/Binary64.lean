/-!
# Binary floating point, 64 bits wide

A number with a fraction or an exponent is read as the nearest binary number with 53 significant bits
and an exponent of at least -1074. Rounding is exact: it divides natural numbers, and a half goes to
the even neighbour. Beyond the greatest such number lies infinity.
-/

namespace PathIgnore

/-- A binary number: `m * 2 ^ e` with its sign, or one of the values that are no numbers. -/
inductive Binary64 where
  | finite (negative : Bool) (m : Nat) (e : Int)
  | infinity (negative : Bool)
  | nan
  deriving DecidableEq, Repr

namespace Binary64

/-- The least exponent. -/
def minExponent : Int := -1074

/-- The greatest exponent. -/
def maxExponent : Int := 971

/-- The quotient rounded to a whole number, a half to the even neighbour. -/
def roundDiv (num den : Nat) : Nat :=
  let q := num / den
  let r := num % den
  if 2 * r < den then q
  else if den < 2 * r then q + 1
  else if q % 2 = 0 then q else q + 1

/-- The fraction `num / den` divided by `base ^ e`. -/
def scaleBy (base : Nat) (num den : Nat) (e : Int) : Nat × Nat :=
  match e with
  | .ofNat k => (num, den * base.pow k)
  | .negSucc k => (num * base.pow (k + 1), den)

/-- The exponent at which the positive fraction has 53 bits before the point, but at least the least
exponent. -/
def exponentOf (num den : Nat) : Int :=
  let guess := (num.log2 : Int) - den.log2 - 52
  let (n, d) := scaleBy 2 num den guess
  max minExponent (if n / d < Nat.pow 2 52 then guess - 1 else guess)

/-- The binary number nearest to `num / den`. -/
def ofFraction (negative : Bool) (num den : Nat) : Binary64 :=
  if num = 0 then .finite negative 0 minExponent
  else
    let e := exponentOf num den
    let (n, d) := scaleBy 2 num den e
    let m := roundDiv n d
    let (m, e) := if m = Nat.pow 2 53 then (Nat.pow 2 52, e + 1) else (m, e)
    if maxExponent < e then .infinity negative else .finite negative m e

/-- The binary number nearest to `digits * 10 ^ e`. Exponents that can only give zero or infinity are
not worked out. -/
def ofDecimal (negative : Bool) (digits : Nat) (e : Int) : Binary64 :=
  let magnitude := e + (Nat.toDigits 10 digits).length
  if digits = 0 ∨ magnitude < -330 then .finite negative 0 minExponent
  else if 310 < magnitude then .infinity negative
  else
    match e with
    | .ofNat k => ofFraction negative (digits * Nat.pow 10 k) 1
    | .negSucc k => ofFraction negative digits (Nat.pow 10 (k + 1))

/-- Whether the number equals zero, of either sign. -/
def isZero : Binary64 → Bool
  | finite _ m _ => m == 0
  | _ => false

example : ofDecimal false 15 (-1) = .finite false (3 * 2 ^ 51) (-52) := by decide +kernel

end Binary64

end PathIgnore
