import PathIgnore.Text.Printable

/-!
# Quoted texts

A text is quoted with single quotes, or with double quotes when it holds a single quote and no double
one. Inside, the backslash and the quote in use take a backslash, tab and the newlines have their
letters, and every other character that does not print is written by its code point in hexadecimal: two
digits after `\x`, four after `\u` or eight after `\U`, whichever is the first to hold it.
-/

namespace PathIgnore.Text

/-- The single quote. -/
def singleQuote : Char := Char.ofNat 39

/-- The double quote. -/
def doubleQuote : Char := Char.ofNat 34

/-- A number in hexadecimal, lower case, filled up with zeros to `width` digits. -/
def hexDigits (width n : Nat) : Text :=
  let digits := Nat.toDigits 16 n
  List.replicate (width - digits.length) '0' ++ digits

/-- A character by its code point. -/
def codePointEscape (c : Char) : Text :=
  let n := c.toNat
  if n < 0x100 then '\\' :: 'x' :: hexDigits 2 n
  else if n < 0x10000 then '\\' :: 'u' :: hexDigits 4 n
  else '\\' :: 'U' :: hexDigits 8 n

/-- A character as it stands between the quotes. -/
def quoteChar (quote c : Char) : Text :=
  if c = '\\' ∨ c = quote then ['\\', c]
  else if c = '\t' then ['\\', 't']
  else if c = '\n' then ['\\', 'n']
  else if c = '\r' then ['\\', 'r']
  else if isPrintable c then [c]
  else codePointEscape c

/-- The quotes for a text. -/
def quoteFor (t : Text) : Char :=
  if singleQuote ∈ t ∧ doubleQuote ∉ t then doubleQuote else singleQuote

/-- The text in quotes. -/
def quoted (t : Text) : Text :=
  let quote := quoteFor t
  quote :: t.flatMap (quoteChar quote) ++ [quote]

example : quoted "it's".toList = "\"it's\"".toList := by decide +kernel

example : quoted "a\\\t\x1b".toList = "'a\\\\\\t\\x1b'".toList := by decide +kernel

end PathIgnore.Text
