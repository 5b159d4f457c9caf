import PathIgnore.Glob.CharClass

/-!
# Bracket sets

What a bracket set such as `[!a-z_[:digit:]]` means: its members in the order written, and whether
the set is negated. A set stands for one character and never for a slash, negated or not.
-/

namespace PathIgnore.Glob

/-- One member of a bracket set. A reversed range is kept as written and covers nothing. -/
inductive Member where
  | single (c : Char)
  | range (lo hi : Char)
  | posix (k : CharClass)
  deriving DecidableEq, Repr

/-- Whether the member covers the character. -/
def Member.covers : Member → Char → Bool
  | single d, c => c == d
  | range lo hi, c => lo ≤ c && c ≤ hi
  | posix k, c => k.contains c

namespace Member

theorem covers_single_iff {d c : Char} : (single d).covers c = true ↔ c = d := beq_iff_eq

theorem covers_range_iff {lo hi c : Char} : (range lo hi).covers c = true ↔ lo ≤ c ∧ c ≤ hi := by
  simp [covers]

theorem covers_posix_iff {k : CharClass} {c : Char} :
    (posix k).covers c = true ↔ k.contains c = true :=
  Iff.rfl

/-- What members cover: the characters that are named, those in a range and those of a class. -/
theorem exists_covers_iff {ms : List Member} {c : Char} :
    (∃ m ∈ ms, m.covers c = true) ↔ single c ∈ ms ∨ (∃ lo hi, range lo hi ∈ ms ∧ lo ≤ c ∧ c ≤ hi) ∨
      ∃ k, posix k ∈ ms ∧ k.contains c = true := by
  constructor
  · rintro ⟨m, hm, h⟩
    cases m with
    | single d => exact .inl (covers_single_iff.mp h ▸ hm)
    | range lo hi => exact .inr (.inl ⟨lo, hi, hm, covers_range_iff.mp h⟩)
    | posix k => exact .inr (.inr ⟨k, hm, covers_posix_iff.mp h⟩)
  · rintro (hm | ⟨lo, hi, hm, h⟩ | ⟨k, hm, h⟩)
    · exact ⟨_, hm, covers_single_iff.mpr rfl⟩
    · exact ⟨_, hm, covers_range_iff.mpr h⟩
    · exact ⟨_, hm, covers_posix_iff.mpr h⟩

end Member

/-- A bracket set. -/
structure CharSet where
  negated : Bool
  members : List Member
  deriving DecidableEq, Repr

namespace CharSet

/-- Whether the set takes the character. -/
def accepts (s : CharSet) (c : Char) : Bool :=
  c != '/' && s.members.any (·.covers c) != s.negated

/-- The characters that stand in the set by themselves, each once, by code point. -/
def singles (s : CharSet) : List Char :=
  (s.members.filterMap fun | .single c => some c | _ => none).eraseDups.mergeSort

/-- The ranges of the set, in the order written. -/
def ranges (s : CharSet) : List (Char × Char) :=
  s.members.filterMap fun | .range lo hi => some (lo, hi) | _ => none

/-- The classes that the set names, in the order written. -/
def classes (s : CharSet) : List CharClass :=
  s.members.filterMap fun | .posix k => some k | _ => none

end CharSet

end PathIgnore.Glob
