import PathIgnore.Text.Basic

/-!
# Malformed patterns

The ways in which a pattern fails to read, and the error that reports one with its offset.

A reader does not know its offset. It reports the text still unread where it stopped (`Stuck`), and
the offset is the difference in length.
-/

namespace PathIgnore.Glob

/-- Why a pattern cannot be read. -/
inductive Fault where
  | emptyPattern
  | emptySegment
  | danglingEscape
  | unclosedSet
  | emptySet
  | unknownClass (name : Text)
  deriving DecidableEq, Repr

/-- The fault in words. -/
def Fault.message : Fault → String
  | emptyPattern => "empty pattern"
  | emptySegment => "empty path segment"
  | danglingEscape => "dangling escape"
  | unclosedSet => "unclosed bracket set"
  | emptySet => "empty bracket set"
  | unknownClass name => "unknown character class '" ++ String.ofList name ++ "'"

/-- Where reading stopped: the cause and the text that is unread there. -/
structure Stuck where
  fault : Fault
  unread : Text
  deriving DecidableEq, Repr

/-- A pattern that cannot be read, with the offset of the fault. -/
structure PatternError where
  pattern : Text
  fault : Fault
  position : Nat
  deriving DecidableEq, Repr

namespace PatternError

/-- The error for a pattern whose reading got stuck. -/
def ofStuck (pattern : Text) (s : Stuck) : PatternError :=
  ⟨pattern, s.fault, pattern.length - s.unread.length⟩

/-- What went wrong, without the place. -/
def message (e : PatternError) : String := e.fault.message

/-- What to look at; the same for every fault. -/
def hint : String := "check brackets, escapes and empty segments"

/-- What went wrong, where, and in which pattern. -/
def describe (e : PatternError) : String :=
  e.message ++ " at offset " ++ toString e.position ++ ": '" ++ String.ofList e.pattern ++ "'"

end PatternError

end PathIgnore.Glob
