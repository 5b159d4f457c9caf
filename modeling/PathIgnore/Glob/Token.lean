import PathIgnore.Glob.CharSet

/-!
# Tokens

A pattern is a sequence of tokens, with every path separator a token of its own.
-/

namespace PathIgnore.Glob

/-- One operator of a pattern. -/
inductive Token where
  /-- A run of plain characters, escapes removed. -/
  | literal (text : Text)
  /-- `*`: any run within one segment. -/
  | star
  /-- `**` at the end: anything. -/
  | globstar
  /-- `**/`: any number of whole segments, each with its slash. -/
  | globstarSlash
  /-- `?`: one character within a segment. -/
  | anyChar
  /-- A bracket set, with the text that spells it. -/
  | bracket (source : Text) (set : CharSet)
  /-- `/`. -/
  | separator
  deriving DecidableEq, Repr

namespace Token

/-- The text of a token: a literal's characters, a set as it is spelled, an operator's sign. -/
def text : Token → Text
  | literal t => t
  | star => ['*']
  | globstar => ['*', '*']
  | globstarSlash => ['*', '*', '/']
  | anyChar => ['?']
  | bracket source _ => source
  | separator => ['/']

/-- Puts a token in front: a literal joins a literal that follows, and a star in front of a star
counts once. -/
def prepend : Token → List Token → List Token
  | literal t, literal u :: ts => literal (t ++ u) :: ts
  | star, star :: ts => star :: ts
  | t, ts => t :: ts

@[simp] theorem prepend_nil (t : Token) : prepend t [] = [t] := by cases t <;> rfl

end Token

end PathIgnore.Glob
