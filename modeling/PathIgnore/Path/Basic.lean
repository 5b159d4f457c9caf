import PathIgnore.Text.Basic

/-!
# Paths as texts

A path is any text, and a slash separates its segments. These functions take paths as they come:
relative ones, doubled slashes and slashes at the end included. On canonical paths, that is those that
`Path.normalize` gives, they are the functions on lists of segments that their names promise.

`ancestors` ends on every text: the directory of a path is the root or shorter than the path.
-/

namespace PathIgnore

/-- Why a text can be neither the path of a file nor the name of a user. -/
inductive PathFault where
  | embeddedNul
  deriving DecidableEq, Repr

/-- The fault in words. -/
def PathFault.message : PathFault → String
  | embeddedNul => "embedded null byte"

namespace Path

/-- The root of the tree. -/
def root : Text := ['/']

/-- Whether the character separates segments. -/
def isSlash (c : Char) : Bool := c == '/'

/-- The path without the slashes at its end. -/
def dropEndSlashes (p : Text) : Text := Text.dropEndWhile isSlash p

/-- The text itself, or the root for the empty one. -/
def orRoot (p : Text) : Text := if p = [] then root else p

/-- The path without the slashes at its end, but at least the root. -/
def trimEnd (p : Text) : Text := orRoot (dropEndSlashes p)

/-- The last segment; empty for the root. -/
def baseName (p : Text) : Text := Text.takeEndWhile (!isSlash ·) (dropEndSlashes p)

/-- The path up to the slash before its last segment, that slash included. -/
def headPart (p : Text) : Text := Text.dropEndWhile (!isSlash ·) (dropEndSlashes p)

/-- The directory that holds the path; the root holds itself. A head of nothing but slashes keeps
them. -/
def dirName (p : Text) : Text :=
  let head := headPart p
  orRoot (if head.all isSlash then head else dropEndSlashes head)

/-- The path of a name in a directory. -/
def join (directory name : Text) : Text :=
  if directory.getLast? = some '/' then directory ++ name else directory ++ '/' :: name

/-- The path from `base` to `target`: a dot if they are equal, nothing if `base` is no ancestor of
`target`. Segments are compared whole. -/
def relative? (base target : Text) : Option Text :=
  let b := trimEnd base
  let t := trimEnd target
  if t = b then some ['.']
  else if b = root then some t.tail
  else (b ++ root).isPrefixOf? t

/-- Whether `child` is `parent` or beneath it. -/
def isWithin (parent child : Text) : Bool := (relative? parent child).isSome

/-! ## Ancestors -/

/-- A nonempty text without slashes at its end has a head that is shorter. -/
theorem length_headPart_lt {p : Text} (h : dropEndSlashes p ≠ []) :
    (headPart p).length < p.length := by
  have hle : (dropEndSlashes p).length ≤ p.length := Text.length_dropEndWhile_le isSlash p
  refine Nat.lt_of_lt_of_le ?_ hle
  unfold headPart
  have hfirst : ∀ c l, p.reverse.dropWhile isSlash = c :: l → isSlash c = false := by
    intro c l hl
    have := List.head?_dropWhile_not isSlash p.reverse
    rw [hl] at this
    simpa using this
  unfold dropEndSlashes Text.dropEndWhile at h ⊢
  cases hl : p.reverse.dropWhile isSlash with
  | nil => simp [hl] at h
  | cons c l =>
    have hc := hfirst c l hl
    have hdrop := (List.dropWhile_sublist (fun x => !isSlash x) (l := l)).length_le
    simp [hc]
    omega

/-- A directory other than the root is shorter than what it holds. -/
theorem length_dirName_lt {p : Text} (h : dirName p ≠ root) : (dirName p).length < p.length := by
  have hle : (dropEndSlashes (headPart p)).length ≤ (headPart p).length :=
    Text.length_dropEndWhile_le isSlash _
  generalize hd : (if (headPart p).all isSlash then headPart p else dropEndSlashes (headPart p)) = d
  have hdir : dirName p = orRoot d := by rw [dirName, hd]
  have hne : d ≠ [] := by
    rintro rfl
    exact h hdir
  have hhead : headPart p ≠ [] := by
    intro hnil
    rw [hnil] at hd
    exact hne hd.symm
  have hdrop : dropEndSlashes p ≠ [] := by
    intro hnil
    exact hhead (by rw [headPart, hnil]; rfl)
  have hlt := length_headPart_lt hdrop
  have hlen : d.length ≤ (headPart p).length := by
    rw [← hd]
    split
    · exact Nat.le_refl _
    · exact hle
  rw [hdir, orRoot, if_neg hne]
  omega

/-- How far a path is from the root at most. -/
def rank (p : Text) : Nat := if p = root then 0 else p.length + 1

theorem rank_dirName_lt {p : Text} (h : p ≠ root) : rank (dirName p) < rank p := by
  unfold rank
  rw [if_neg h]
  split
  · exact Nat.succ_pos _
  · next hdir => exact Nat.succ_lt_succ (length_dirName_lt hdir)

/-- The directory of the path, the directory of that, and so on up to the root. -/
def ancestorsFrom (p : Text) : List Text :=
  if p = root then [] else dirName p :: ancestorsFrom (dirName p)
termination_by rank p
decreasing_by exact rank_dirName_lt ‹_›

/-- The directories above the path, nearest first, the root last. The root has none. -/
def ancestors (p : Text) : List Text := ancestorsFrom (trimEnd p)

@[simp] theorem ancestorsFrom_root : ancestorsFrom root = [] := by
  rw [ancestorsFrom, if_pos rfl]

theorem ancestorsFrom_of_ne {p : Text} (h : p ≠ root) :
    ancestorsFrom p = dirName p :: ancestorsFrom (dirName p) := by
  rw [ancestorsFrom, if_neg h]

example : ancestors "/a/b//".toList = ["/a".toList, root] := by decide +kernel

example : ancestors "//a".toList = ["//".toList, root] := by decide +kernel

example : relative? "/a".toList "/a/b/c".toList = some "b/c".toList := by decide

example : relative? "/a/b".toList "/a/bc".toList = none := by decide

end Path

end PathIgnore
