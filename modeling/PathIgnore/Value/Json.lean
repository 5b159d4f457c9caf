import PathIgnore.Value.Basic

/-!
# JSON

`Value.ofJson?` reads a whole JSON text. Beyond the standard it knows the three words `NaN`, `Infinity`
and `-Infinity`. A number with a fraction or an exponent is a real, any other an integer, which may have
4300 digits at most. Of a name that occurs twice the last value counts. A surrogate escape must have its
partner, since no text holds half a pair.

The readers return the rest of the text. `readValue?` counts down `fuel`, of which a text needs no more
than twice its length: every second call takes a character.
-/

namespace PathIgnore.Json

/-! ## Lexical parts -/

/-- The text after the space between tokens. -/
def skipSpace (t : Text) : Text :=
  t.dropWhile fun c => c == ' ' || c == '\t' || c == '\n' || c == '\r'

/-- The rest of the text after a given word. -/
def expect? (word t : Text) : Option Text := word.isPrefixOf? t

/-- The value of a hexadecimal digit. -/
def hexDigit? (c : Char) : Option Nat :=
  let n := c.toNat
  if 48 ≤ n ∧ n ≤ 57 then some (n - 48)
  else if 65 ≤ n ∧ n ≤ 70 then some (n - 55)
  else if 97 ≤ n ∧ n ≤ 102 then some (n - 87)
  else none

/-- The number that four hexadecimal digits write. -/
def hexUnit? (a b c d : Char) : Option Nat := do
  let a ← hexDigit? a
  let b ← hexDigit? b
  let c ← hexDigit? c
  let d ← hexDigit? d
  return ((a * 16 + b) * 16 + c) * 16 + d

/-- The character after a backslash that stands for itself or for a control character. -/
def shortEscape? (c : Char) : Option Char :=
  match c with
  | '"' => some '"'
  | '\\' => some '\\'
  | '/' => some '/'
  | 'b' => some '\x08'
  | 'f' => some '\x0c'
  | 'n' => some '\n'
  | 'r' => some '\r'
  | 't' => some '\t'
  | _ => none

/-- Reads a string after its opening quote, as numbers: code points for characters, code units for
numeric escapes. -/
def readUnits? : Text → Option (List Nat × Text)
  | '"' :: r => some ([], r)
  | '\\' :: 'u' :: a :: b :: c :: d :: r =>
    (hexUnit? a b c d).bind fun n => (readUnits? r).map fun (ns, s) => (n :: ns, s)
  | '\\' :: e :: r =>
    (shortEscape? e).bind fun ch => (readUnits? r).map fun (ns, s) => (ch.toNat :: ns, s)
  | c :: r =>
    if c.toNat < 0x20 ∨ c = '\\' then none
    else (readUnits? r).map fun (ns, s) => (c.toNat :: ns, s)
  | [] => none

/-- Puts pairs of surrogates together; a half without its partner is no text. -/
def joinSurrogates? : List Nat → Option Text
  | [] => some []
  | [n] => if 0xD800 ≤ n ∧ n ≤ 0xDFFF then none else some [Char.ofNat n]
  | n :: m :: ns =>
    if 0xD800 ≤ n ∧ n ≤ 0xDBFF then
      if 0xDC00 ≤ m ∧ m ≤ 0xDFFF then
        (joinSurrogates? ns).map (Char.ofNat (0x10000 + (n - 0xD800) * 0x400 + (m - 0xDC00)) :: ·)
      else none
    else if 0xDC00 ≤ n ∧ n ≤ 0xDFFF then none
    else (joinSurrogates? (m :: ns)).map (Char.ofNat n :: ·)

/-- Reads a string after its opening quote. -/
def readString? (t : Text) : Option (Text × Text) := do
  let (units, rest) ← readUnits? t
  let s ← joinSurrogates? units
  return (s, rest)

/-! ## Numbers -/

/-- The digits after a point, if a point and a digit come next, and the rest. -/
def readFraction (t : Text) : Text × Text :=
  match t with
  | '.' :: r =>
    let digits := r.takeWhile Decimal.isDigit
    if digits.isEmpty then ([], t) else (digits, r.dropWhile Decimal.isDigit)
  | _ => ([], t)

/-- The exponent, if one comes next, and the rest. -/
def readExponent (t : Text) : Option Int × Text :=
  match t with
  | e :: r =>
    if e = 'e' ∨ e = 'E' then
      let negative := r.head? = some '-'
      let body := if negative ∨ r.head? = some '+' then r.tail else r
      let digits := body.takeWhile Decimal.isDigit
      if digits.isEmpty then (none, t)
      else
        let n : Int := Decimal.digitsValue digits
        (some (if negative then -n else n), body.dropWhile Decimal.isDigit)
    else (none, t)
  | [] => (none, t)

/-- Reads a number. A leading zero stands alone. -/
def readNumber? (t : Text) : Option (Value × Text) :=
  let negative := t.head? = some '-'
  let body := if negative then t.tail else t
  let whole := if body.head? = some '0' then ['0'] else body.takeWhile Decimal.isDigit
  if whole.isEmpty then none
  else
    let (fraction, afterFraction) := readFraction (body.drop whole.length)
    let (exponent, rest) := readExponent afterFraction
    if fraction.isEmpty ∧ exponent.isNone then
      if Decimal.maxDigits < whole.length then none
      else
        let n : Int := Decimal.digitsValue whole
        some (.integer (if negative then -n else n), rest)
    else
      let digits := Decimal.digitsValue (whole ++ fraction)
      some (.real (.ofDecimal negative digits (exponent.getD 0 - fraction.length)), rest)

/-- Reads a word or a number. -/
def readScalar? (t : Text) : Option (Value × Text) :=
  let words : List (Text × Value) := [
    ("null".toList, .null), ("true".toList, .bool true), ("false".toList, .bool false),
    ("NaN".toList, .real .nan), ("Infinity".toList, .real (.infinity false)),
    ("-Infinity".toList, .real (.infinity true))]
  match words.findSome? fun (word, v) => (expect? word t).map fun r => (v, r) with
  | some found => some found
  | none => readNumber? t

/-! ## Values -/

mutual

/-- Reads a value; no space may stand in front. -/
def readValue? : Nat → Text → Option (Value × Text)
  | 0, _ => none
  | fuel + 1, t =>
    match t with
    | '"' :: r => (readString? r).map fun (s, rest) => (.text s, rest)
    | '[' :: r =>
      match skipSpace r with
      | ']' :: rest => some (.list [], rest)
      | s => (readItems? fuel s).map fun (items, rest) => (.list items, rest)
    | '{' :: r =>
      match skipSpace r with
      | '}' :: rest => some (.record [], rest)
      | s => (readFields? fuel [] s).map fun (fields, rest) => (.record fields, rest)
    | _ => readScalar? t

/-- Reads the items of a list up to the closing bracket. -/
def readItems? : Nat → Text → Option (List Value × Text)
  | 0, _ => none
  | fuel + 1, t => do
    let (v, r) ← readValue? fuel t
    match skipSpace r with
    | ']' :: rest => return ([v], rest)
    | ',' :: s =>
      let (vs, rest) ← readItems? fuel (skipSpace s)
      return (v :: vs, rest)
    | _ => none

/-- Reads the fields of a record up to the closing brace, adding them to those read before. -/
def readFields? : Nat → List (Text × Value) → Text → Option (List (Text × Value) × Text)
  | 0, _, _ => none
  | fuel + 1, fields, t => do
    let r ← expect? ['"'] t
    let (name, r) ← readString? r
    let r ← expect? [':'] (skipSpace r)
    let (v, r) ← readValue? fuel (skipSpace r)
    let fields := Value.setField name v fields
    match skipSpace r with
    | '}' :: rest => return (fields, rest)
    | ',' :: s => readFields? fuel fields (skipSpace s)
    | _ => none

end

end Json

/-- The value that a JSON text writes. -/
def Value.ofJson? (t : Text) : Option Value := do
  let (v, rest) ← Json.readValue? (2 * t.length + 2) (Json.skipSpace t)
  if (Json.skipSpace rest).isEmpty then return v else none

end PathIgnore
