import PathIgnore.Glob.Scan
import PathIgnore.Glob.Matcher

/-!
# Globs

A glob is a pattern that reads, together with its tokens. It matches whole candidates: `*` stays
within a segment, `**` crosses slashes, and a slash in the candidate is only ever taken by a
separator, a literal or a double star.
-/

namespace PathIgnore

/-- A compiled pattern. -/
structure Glob where
  pattern : Text
  tokens : List Glob.Token
  /-- The tokens are those of the pattern. -/
  tokenize_pattern : Glob.tokenize pattern = .ok tokens

namespace Glob

/-- Compiles a pattern, or reports where it does not read. -/
def compile (pattern : Text) : Except PatternError Glob :=
  match h : tokenize pattern with
  | .error e => .error e
  | .ok ts => .ok ⟨pattern, ts, h⟩

/-- Whether the glob takes the whole candidate. -/
def accepts (g : Glob) (s : Text) : Bool := passes (chain g.tokens) s

/-- Two globs with one pattern are one glob. -/
theorem ext_pattern {g h : Glob} (hp : g.pattern = h.pattern) : g = h := by
  obtain ⟨p, ts, hg⟩ := g
  obtain ⟨q, us, hh⟩ := h
  cases hp
  rw [hg] at hh
  cases hh
  rfl

instance : DecidableEq Glob := fun g h =>
  if hp : g.pattern = h.pattern then .isTrue (ext_pattern hp)
  else .isFalse fun heq => hp (congrArg Glob.pattern heq)

/-- What compiles has the tokens that reading finds. -/
theorem compile_eq_ok_iff {p : Text} {g : Glob} :
    compile p = .ok g ↔ g.pattern = p ∧ tokenize p = .ok g.tokens := by
  unfold compile
  split
  · next h => simp [h]
  · next ts h =>
    constructor
    · intro hg
      cases hg
      exact ⟨rfl, h⟩
    · rintro ⟨hp, _⟩
      exact congrArg Except.ok (ext_pattern hp.symm)

/-- Compiling fails as reading does. -/
theorem compile_eq_error_iff {p : Text} {e : PatternError} :
    compile p = .error e ↔ tokenize p = .error e := by
  unfold compile
  split <;> next h => simp [h]

end Glob

end PathIgnore
