import PathIgnore.Text.Basic

/-!
# Blank characters

The characters that count as blank at the ends of a line, a name or a setting. The set is larger than
ASCII and smaller than "prints nothing": U+200B, U+FEFF and U+180E are no blanks. It is the Unicode property
`White_Space` together with the four information separators U+001C to U+001F.
-/

namespace PathIgnore

/-- The code points of the Unicode property `White_Space`. -/
def isWhiteSpace (c : Char) : Bool :=
  let n := c.toNat
  (0x09 ≤ n && n ≤ 0x0D) || n == 0x20 || n == 0x85 || n == 0xA0 || n == 0x1680 ||
    (0x2000 ≤ n && n ≤ 0x200A) || n == 0x2028 || n == 0x2029 || n == 0x202F || n == 0x205F ||
    n == 0x3000

/-- White space and the information separators U+001C to U+001F. -/
def isBlank (c : Char) : Bool :=
  isWhiteSpace c || (0x1C ≤ c.toNat && c.toNat ≤ 0x1F)

namespace Text

/-- The text without the blanks at its ends. -/
def strip (t : Text) : Text := trim isBlank t

/-- The text without the blanks at its end. -/
def stripEnd (t : Text) : Text := dropEndWhile isBlank t

/-- The run of blanks at the end of the text. -/
def trailingBlanks (t : Text) : Text := takeEndWhile isBlank t

/-- A text is blank when it has no character but blanks. -/
def isBlankText (t : Text) : Bool := t.all isBlank

theorem stripEnd_append_trailingBlanks (t : Text) : stripEnd t ++ trailingBlanks t = t :=
  dropEndWhile_append_takeEndWhile isBlank t

/-- Stripping twice is stripping once. -/
theorem strip_strip (t : Text) : strip (strip t) = strip t := trim_trim isBlank t

end Text

end PathIgnore
