import PathIgnore.Path.Basic
import PathIgnore.Text.Blank

/-!
# Normal form of a path

`normalize` gives the absolute, slash-separated form of whatever a caller writes: blanks around it go,
a tilde stands for a home directory, a relative path starts in the working directory, a backslash
separates as a slash does, and empty, `.` and `..` segments are worked out. Links are not followed.

Only the tilde can fail: the user whose name follows it is looked up, and no name with U+0000 in it can
be.

Segments are worked out twice, before and after backslashes become slashes; a `..` in front of a
backslash is therefore part of a name the first time.
-/

namespace PathIgnore

/-- What a path may silently refer to. -/
structure Surroundings where
  workingDirectory : Text
  /-- The home directory of whoever asks, if it is known. -/
  home : Option Text
  /-- The home directory of the user of a name, if there is such a user. -/
  homeOf : Text → Option Text

namespace Surroundings

/-- The working directory is the root, and nobody has a home. -/
def atRoot : Surroundings := ⟨Path.root, none, fun _ => none⟩

/-- Looks for the home directory of the user of a name; without a name it is that of whoever asks. -/
def findHome (around : Surroundings) (name : Text) : Except PathFault (Option Text) :=
  if name = [] then .ok around.home
  else if '\x00' ∈ name then .error .embeddedNul
  else .ok (around.homeOf name)

end Surroundings

namespace Path

/-- What a segment does to the segments before it, the last of which comes first: an empty one and `.`
do nothing, `..` takes one away. -/
def applySegment (above : List Text) (segment : Text) : List Text :=
  if segment = [] ∨ segment = ['.'] then above
  else if segment = ['.', '.'] then above.tail
  else segment :: above

/-- The segments of an absolute path after working out empty, `.` and `..` ones. -/
def resolvedSegments (p : Text) : List Text :=
  ((p.splitOn '/').foldl applySegment []).reverse

/-- The slashes that lead an absolute path: exactly two stay two, any other number is one. -/
def leadingSlashes (p : Text) : Text :=
  if (p.takeWhile isSlash).length = 2 then ['/', '/'] else root

/-- An absolute path with its segments worked out. -/
def collapse (p : Text) : Text :=
  leadingSlashes p ++ ['/'].intercalate (resolvedSegments p)

/-- A tilde with the name of a user behind it, up to the first slash, stands for the home directory of
that user. A path under a home that is not known stays as it is. -/
def expandHome (around : Surroundings) (p : Text) : Except PathFault Text :=
  match p with
  | '~' :: rest =>
    let below := rest.dropWhile (!isSlash ·)
    (around.findHome (rest.takeWhile (!isSlash ·))).map fun
      | some home => orRoot (dropEndSlashes home ++ below)
      | none => p
  | _ => .ok p

/-- The path seen from the working directory. -/
def absolute (workingDirectory p : Text) : Text :=
  collapse (if p.head? = some '/' then p else join workingDirectory p)

/-- Backslashes become slashes. -/
def slashed (p : Text) : Text := p.map fun c => if c = '\\' then '/' else c

/-- Drops one of two leading slashes. -/
def singleLeading (p : Text) : Text :=
  if (p.takeWhile isSlash).length = 2 then p.tail else p

/-- What a text names: itself without the blanks around it, or the working directory if that is
nothing. -/
def named (around : Surroundings) (p : Text) : Text :=
  if Text.strip p = [] then around.workingDirectory else Text.strip p

/-- The normal form of a path that has no tilde to expand. -/
def settle (workingDirectory p : Text) : Text :=
  singleLeading (collapse (slashed (absolute workingDirectory p)))

/-- The normal form of a path, if the home that it refers to can be looked for. -/
def normalize (around : Surroundings) (p : Text) : Except PathFault Text :=
  (expandHome around (named around p)).map (settle around.workingDirectory)

example : (normalize ⟨"/work/dir".toList, none, fun _ => none⟩ " ../x\\.\\y/ ".toList).toOption =
    some "/work/x/y".toList := by decide +kernel

example : (normalize ⟨Path.root, some "/home/user/".toList, fun _ => none⟩ "~/a//b".toList).toOption =
    some "/home/user/a/b".toList := by decide +kernel

example : (normalize ⟨Path.root, none, fun name => some ('/' :: name)⟩ "~root/x".toList).toOption =
    some "/root/x".toList := by decide +kernel

end Path

end PathIgnore
