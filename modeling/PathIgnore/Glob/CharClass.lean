import PathIgnore.Text.Basic

/-!
# Named character classes

The twelve POSIX classes that a bracket set may name, as `[:alpha:]` does. They hold ASCII characters
only.
-/

namespace PathIgnore.Glob

/-- A character class with a POSIX name. -/
inductive CharClass where
  | alnum | alpha | blank | cntrl | digit | graph | lower | print | punct | space | upper | xdigit
  deriving DecidableEq, Repr

namespace CharClass

/-- Every class, by name. -/
def all : List CharClass :=
  [alnum, alpha, blank, cntrl, digit, graph, lower, print, punct, space, upper, xdigit]

/-- The name between `[:` and `:]`. -/
def name : CharClass → Text
  | alnum => "alnum".toList
  | alpha => "alpha".toList
  | blank => "blank".toList
  | cntrl => "cntrl".toList
  | digit => "digit".toList
  | graph => "graph".toList
  | lower => "lower".toList
  | print => "print".toList
  | punct => "punct".toList
  | space => "space".toList
  | upper => "upper".toList
  | xdigit => "xdigit".toList

/-- The class of that name; case matters. -/
def ofName? (t : Text) : Option CharClass := all.find? fun k => k.name = t

/-- The code points that the class holds, as inclusive ranges in ascending order. -/
def ranges : CharClass → List (Nat × Nat)
  | alnum => [(48, 57), (65, 90), (97, 122)]
  | alpha => [(65, 90), (97, 122)]
  | blank => [(9, 9), (32, 32)]
  | cntrl => [(0, 31), (127, 127)]
  | digit => [(48, 57)]
  | graph => [(33, 126)]
  | lower => [(97, 122)]
  | print => [(32, 126)]
  | punct => [(33, 47), (58, 64), (91, 96), (123, 126)]
  | space => [(9, 13), (32, 32)]
  | upper => [(65, 90)]
  | xdigit => [(48, 57), (65, 70), (97, 102)]

/-- Whether the class holds the character. -/
def contains (k : CharClass) (c : Char) : Bool :=
  k.ranges.any fun (lo, hi) => lo ≤ c.toNat && c.toNat ≤ hi

/-- Each class is found under its name. -/
@[simp] theorem ofName?_name (k : CharClass) : ofName? k.name = some k := by cases k <;> decide

theorem name_of_ofName? {t : Text} {k : CharClass} (h : ofName? t = some k) : k.name = t := by
  simpa using List.find?_some h

/-- A name holds no colon, so `:]` ends it. -/
theorem colon_not_mem_name (k : CharClass) : ':' ∉ k.name := by cases k <;> decide

end CharClass

end PathIgnore.Glob
