import PathIgnore.Text.Basic

/-!
# Lines

A file ends its lines with LF, CR LF or CR. `unifyNewlines` writes all three as LF, and `lines` cuts
there. No other character ends a line: form feed, U+0085 and U+2028 are ordinary. A terminator at the
very end opens no further line.
-/

namespace PathIgnore.Text

/-- CR LF and CR become LF. -/
def unifyNewlines : Text → Text
  | [] => []
  | c :: r =>
    if c = '\r' then
      match r with
      | [] => ['\n']
      | d :: s => if d = '\n' then '\n' :: unifyNewlines s else '\n' :: unifyNewlines (d :: s)
    else c :: unifyNewlines r

/-- The pieces between line feeds, less an empty piece at the end. -/
def splitLines (t : Text) : List Text :=
  let pieces := t.splitOn '\n'
  if pieces.getLast? = some [] then pieces.dropLast else pieces

/-- The lines of a file's text. -/
def lines (t : Text) : List Text := splitLines (unifyNewlines t)

/-- A text without CR keeps its newlines. -/
theorem unifyNewlines_eq_self {t : Text} (h : '\r' ∉ t) : unifyNewlines t = t := by
  fun_induction unifyNewlines t <;> simp_all

example : lines "a\r\nb\r\rc\n".toList = ["a", "b", "", "c"].map String.toList := by decide +kernel

end PathIgnore.Text
