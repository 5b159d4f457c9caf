import PathIgnore.Proofs.Path.Canonical

/-!
# Paths seen from a directory

What a path looks like from a directory that it lies beneath hangs on the segments in between alone
(`relative?_ofSegments`). So a path is moved from one directory to another by joining what it looks like
from the one to the other (`rebase_ofSegments`). From the directory that holds it, a path is its last segment
(`relative?_dirName`).
-/

namespace PathIgnore.Path

variable {p : Text} {m a b : List Text}

theorem stem_eq_cons_tail (hne : m ≠ []) : stem m = '/' :: (stem m).tail := by
  induction m with
  | nil => exact absurd rfl hne
  | cons s m ih =>
    cases m with
    | nil => rfl
    | cons t m =>
      rw [stem, ih (List.cons_ne_nil t m)]
      rfl

theorem ofSegments_append_ne (hm : ∀ x ∈ m, IsSegment x) (ha : ∀ x ∈ a, IsSegment x) (hne : m ≠ []) :
    ofSegments (m ++ a) ≠ ofSegments a := by
  intro h
  have hma : ∀ x ∈ m ++ a, IsSegment x := List.forall_mem_append.mpr ⟨hm, ha⟩
  exact hne (List.append_left_eq_self.mp (ofSegments_injective hma ha h))

/-- **From a directory, a path beneath it is the segments in between.** -/
theorem relative?_ofSegments (hm : ∀ x ∈ m, IsSegment x) (ha : ∀ x ∈ a, IsSegment x) (hne : m ≠ []) :
    relative? (ofSegments a) (ofSegments (m ++ a)) = some (stem m).tail := by
  have hma : ∀ x ∈ m ++ a, IsSegment x := List.forall_mem_append.mpr ⟨hm, ha⟩
  rw [relative?, trimEnd_ofSegments ha, trimEnd_ofSegments hma, if_neg (ofSegments_append_ne hm ha hne)]
  have hwhole : ofSegments (m ++ a) = stem a ++ stem m := by
    rw [ofSegments_of_ne_nil (by simp [hne]), stem_append]
  cases a with
  | nil => rw [if_pos ofSegments_nil, hwhole, stem, List.nil_append]
  | cons s a =>
    rw [if_neg (ofSegments_cons_ne_root (ha s List.mem_cons_self)), Text.isPrefixOf?_eq_some_iff,
      hwhole, ofSegments_of_ne_nil (List.cons_ne_nil s a), List.append_assoc]
    exact congrArg _ (stem_eq_cons_tail hne).symm

/-- What a path looks like from a directory starts and ends with no slash. -/
theorem ends_of_relative? {d p x : Text} (hd : IsCanonical d) (hp : IsCanonical p)
    (h : relative? d p = some x) : x.head? ≠ some '/' ∧ x.getLast? ≠ some '/' := by
  obtain ⟨a, ha, rfl⟩ := isCanonical_iff.mp hd
  obtain ⟨l, hl, rfl⟩ := isCanonical_iff.mp hp
  have hsegments : ∀ s ∈ a, IsSegment s := fun s hs => (ha s hs).1
  have hwithin : isWithin (ofSegments a) (ofSegments l) = true := by rw [isWithin, h]; rfl
  obtain ⟨m, rfl⟩ := (isWithin_ofSegments_iff hsegments fun s hs => (hl s hs).1).mp hwithin
  have hm : ∀ s ∈ m, IsSegment s := fun s hs => (hl s (List.mem_append_left _ hs)).1
  cases m with
  | nil =>
    rw [List.nil_append, relative?, if_pos rfl] at h
    cases h
    decide
  | cons s m =>
    have hne : s :: m ≠ [] := List.cons_ne_nil s m
    rw [relative?_ofSegments hm hsegments hne] at h
    cases h
    have hwhole : '/' :: (stem (s :: m)).tail = ofSegments (s :: m) := by
      rw [ofSegments_of_ne_nil hne, ← stem_eq_cons_tail hne]
    constructor
    · have hbody := cons_intercalate_eq_ofSegments (s :: m).reverse
      rw [List.reverse_reverse, ← hwhole, List.cons.injEq] at hbody
      intro hhead
      rw [← hbody.2] at hhead
      cases isSlash_head?_intercalate (fun t ht => hm t (List.mem_reverse.mp ht)) '/' hhead
    · obtain ⟨hs, hslash⟩ := hm s List.mem_cons_self
      intro hlast
      have hend : (ofSegments (s :: m)).getLast? = some '/' := by
        rw [← hwhole, List.getLast?_cons, hlast]
        rfl
      rw [getLast?_ofSegments_cons hs] at hend
      exact hslash (List.mem_of_getLast? hend)

/-- From its directory, a path beneath it is what has to be joined to the directory. -/
theorem relative?_eq_some_iff_of_isWithin {d p x : Text} (hd : IsCanonical d)
    (hp : IsCanonical p) (hne : p ≠ d) (hwithin : isWithin d p = true) :
    relative? d p = some x ↔ p = join d x := by
  obtain ⟨a, ha, rfl⟩ := isCanonical_iff.mp hd
  obtain ⟨l, hl, rfl⟩ := isCanonical_iff.mp hp
  have hsegments : ∀ s ∈ a, IsSegment s := fun s hs => (ha s hs).1
  obtain ⟨m, rfl⟩ := (isWithin_ofSegments_iff hsegments fun s hs => (hl s hs).1).mp hwithin
  have hm : m ≠ [] := by
    rintro rfl
    exact hne rfl
  have hwhole : ofSegments (m ++ a) = stem a ++ '/' :: (stem m).tail := by
    rw [ofSegments_of_ne_nil (by simp [hm]), stem_append, ← stem_eq_cons_tail hm]
  rw [relative?_ofSegments (fun s hs => (hl s (List.mem_append_left _ hs)).1) hsegments hm,
    join_ofSegments_eq hsegments, hwhole, Option.some.injEq, List.append_cancel_left_eq,
    List.cons.injEq, eq_self, true_and]

/-- **A segment in a directory has the directory and the segment as its parts.** -/
theorem dirName_baseName_join {d name : Text} (hd : IsCanonical d) (hname : IsSegment name) :
    dirName (join d name) = d ∧ baseName (join d name) = name := by
  obtain ⟨a, hsegments, rfl⟩ := hd.exists_segments
  have hname' : ∀ s ∈ name :: a, IsSegment s := List.forall_mem_cons.mpr ⟨hname, hsegments⟩
  rw [join_ofSegments hsegments]
  exact ⟨dirName_ofSegments_cons hname', baseName_ofSegments_cons hname'⟩

theorem dirName_join {d name : Text} (hd : IsCanonical d) (hname : IsSegment name) :
    dirName (join d name) = d :=
  (dirName_baseName_join hd hname).1

/-- A path other than the root is a segment in front of its directory. -/
theorem exists_ofSegments_cons (hp : IsCanonical p) (hne : p ≠ root) :
    ∃ s l, (∀ x ∈ s :: l, IsSegment x) ∧ p = ofSegments (s :: l) := by
  obtain ⟨l, hl, rfl⟩ := isCanonical_iff.mp hp
  cases l with
  | nil => exact absurd ofSegments_nil hne
  | cons s l => exact ⟨s, l, fun x hx => (hl x hx).1, rfl⟩

/-- **A path other than the root is its last segment in the directory that holds it.** -/
theorem join_dirName_baseName (hp : IsCanonical p) (hne : p ≠ root) :
    IsSegment (baseName p) ∧ join (dirName p) (baseName p) = p := by
  obtain ⟨s, l, hsegments, rfl⟩ := exists_ofSegments_cons hp hne
  rw [baseName_ofSegments_cons hsegments, dirName_ofSegments_cons hsegments,
    join_ofSegments fun x hx => hsegments x (List.mem_cons_of_mem _ hx)]
  exact ⟨hsegments s List.mem_cons_self, rfl⟩

theorem dirName_mem_ancestors (hp : IsCanonical p) (hne : p ≠ root) : dirName p ∈ ancestors p := by
  obtain ⟨s, l, hsegments, rfl⟩ := exists_ofSegments_cons hp hne
  rw [dirName_ofSegments_cons hsegments]
  exact (mem_ancestors_ofSegments_iff hsegments).mpr ⟨[s], List.cons_ne_nil _ _, l, rfl, rfl⟩

/-- **From the directory that holds it, a path is its last segment.** -/
theorem relative?_dirName (hp : IsCanonical p) (hne : p ≠ root) :
    relative? (dirName p) p = some (baseName p) := by
  obtain ⟨s, l, hsegments, rfl⟩ := exists_ofSegments_cons hp hne
  have hl : ∀ x ∈ l, IsSegment x := fun x hx => hsegments x (List.mem_cons_of_mem _ hx)
  have hs : ∀ x ∈ [s], IsSegment x := by simpa using hsegments s List.mem_cons_self
  rw [dirName_ofSegments_cons hsegments, baseName_ofSegments_cons hsegments]
  exact relative?_ofSegments hs hl (List.cons_ne_nil _ _)

/-! ## Another base -/

/-- The path under another base; nothing is left of a path that does not lie within the old base. -/
def rebase (base base' p : Text) : Text :=
  if p = base then base'
  else
    match relative? base p with
    | some rest => join base' rest
    | none => []

/-- **Under another base the segments in between stay.** -/
theorem rebase_ofSegments (hm : ∀ x ∈ m, IsSegment x) (ha : ∀ x ∈ a, IsSegment x)
    (hb : ∀ x ∈ b, IsSegment x) :
    rebase (ofSegments a) (ofSegments b) (ofSegments (m ++ a)) = ofSegments (m ++ b) := by
  cases m with
  | nil => exact if_pos rfl
  | cons s m =>
    have hne := List.cons_ne_nil s m
    rw [rebase, if_neg (ofSegments_append_ne hm ha hne), relative?_ofSegments hm ha hne]
    dsimp only
    rw [join_ofSegments_eq hb, ← stem_eq_cons_tail hne, ← stem_append,
      ofSegments_of_ne_nil (by simp)]

end PathIgnore.Path
