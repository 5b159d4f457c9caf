import PathIgnore.Text.Blank

/-!
# The line of a rule

A line of an ignore file is blank, a comment or a rule. `Line.ofText?` takes the text of a rule apart:

* blanks at the end go, but a backslash in front of them keeps the first one;
* `!` in front negates the rule, and a backslash in front of `!` or `#` takes that meaning away;
* a slash in front anchors the rule to the directory of its file;
* a slash at the end, unless escaped, restricts the rule to directories.

What remains is the pattern. Nothing else of the line is lost.
-/

namespace PathIgnore

/-- How a rule applies. -/
structure Flags where
  /-- The rule keeps what it matches. -/
  negated : Bool := false
  /-- Only directories match. -/
  directoryOnly : Bool := false
  /-- The pattern is held against the last segment of a path. -/
  basenameOnly : Bool := false
  /-- A slash stood in front of the pattern. -/
  anchored : Bool := false
  deriving DecidableEq, Repr

/-- A rule's line taken apart. -/
structure Line extends Flags where
  pattern : Text
  deriving DecidableEq, Repr

namespace Line

/-- Whether the text ends in an odd run of backslashes, the last of which escapes what follows. -/
def endsInEscape (t : Text) : Bool := (Text.takeEndWhile (· == '\\') t).length % 2 == 1

/-- The line without the blanks at its end. An escaped blank stays, and its backslash goes. -/
def trimmed (raw : Text) : Text :=
  let core := Text.stripEnd raw
  match Text.trailingBlanks raw with
  | [] => raw
  | blank :: _ => if endsInEscape core then core.dropLast ++ [blank] else core

/-- Whether an unescaped slash ends the text. -/
def endsInSlash (t : Text) : Bool := t.getLast? == some '/' && !endsInEscape t.dropLast

/-- Takes the mark of negation off, or the backslash that hides one or a comment sign. -/
def takeNegation (t : Text) : Bool × Text :=
  match t with
  | [] => (false, [])
  | c :: r =>
    if c = '!' then (true, r)
    else if c = '\\' ∧ (r.head? = some '!' ∨ r.head? = some '#') then (false, r)
    else (false, c :: r)

/-- Takes a slash in front off. -/
def takeAnchor (t : Text) : Bool × Text :=
  match t with
  | [] => (false, [])
  | c :: r => if c = '/' then (true, r) else (false, c :: r)

/-- Takes a trimmed line apart. Whether the pattern stands for a last segment is decided before the
marks in front are gone. -/
def parse (t : Text) : Line :=
  let directoryOnly := endsInSlash t
  -- A slash anywhere but at the end ties the pattern to its directory.
  let body := if directoryOnly then t.dropLast else t
  let (negated, t) := takeNegation t
  let (anchored, t) := takeAnchor t
  { negated, directoryOnly, anchored,
    basenameOnly := !body.contains '/' && !anchored,
    pattern := if directoryOnly then t.dropLast else t }

/-- Whether the line holds no rule: it is blank or starts with a number sign. -/
def isSkipped (raw : Text) : Bool := Text.isBlankText raw || raw.head? == some '#'

/-- The line of a rule, or nothing for a blank line or a comment. -/
def ofText? (raw : Text) : Option Line :=
  if isSkipped raw then none else some (parse (trimmed raw))

theorem ofText?_eq_none_iff {raw : Text} : ofText? raw = none ↔ isSkipped raw = true := by
  unfold ofText?
  split <;> simp_all

example : ofText? "!/a\\ /b/  ".toList = some
    { negated := true, directoryOnly := true, anchored := true, pattern := "a\\ /b".toList } := by
  decide +kernel

example : ofText? "\\#a\\   ".toList = some { basenameOnly := true, pattern := "#a ".toList } := by
  decide +kernel

end Line

end PathIgnore
