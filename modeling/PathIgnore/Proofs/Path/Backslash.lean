import Mathlib.Data.List.Induction
import Mathlib.Data.List.Infix
import PathIgnore.Proofs.Path.Canonical

/-!
# Backslashes as separators

A path that starts with a slash is worked out twice: between its slashes, backslashes being characters of
names, and then between separators of either kind (`normalize_eq_piecesOf_namesOf`). With slashes in
place of its backslashes it is worked out between all separators from the start
(`normalize_slashed_eq_piecesOf`).

The two part ways only where a `..` between slashes takes away a name that its backslashes make more or
less than one name (`reopened_concat_iff`). Short of that a path may have either spelling
(`unifiesSeparators_iff_atOneName`).
-/

namespace PathIgnore.Path

/-- The pieces of a text between separators of either kind. -/
def pieces (p : Text) : List Text := (slashed p).splitOn '/'

/-- What a segment does to the names before it, the last of which comes first, if its backslashes
separate. -/
def applyPieces (above : List Text) (segment : Text) : List Text :=
  (pieces segment).foldl applySegment above

/-- The names that segments come to, the last one first, if backslashes are characters of names. -/
def namesOf (segments : List Text) : List Text := segments.foldl applySegment []

/-- The names that segments come to, the last one first, if backslashes separate. -/
def piecesOf (segments : List Text) : List Text := segments.foldl applyPieces []

theorem namesOf_concat (segments : List Text) (s : Text) :
    namesOf (segments ++ [s]) = applySegment (namesOf segments) s := by
  rw [namesOf, List.foldl_append]
  rfl

theorem piecesOf_concat (segments : List Text) (s : Text) :
    piecesOf (segments ++ [s]) = applyPieces (piecesOf segments) s := by
  rw [piecesOf, List.foldl_append]
  rfl

/-! ## Pieces -/

theorem pieces_ne_nil (p : Text) : pieces p ≠ [] := List.splitOn_ne_nil '/' (slashed p)

/-- A separator ends an empty first piece. -/
theorem pieces_separator {c : Char} (hc : c = '/' ∨ c = '\\') (p : Text) :
    pieces (c :: p) = [] :: pieces p := by
  have hslashed : slashed (c :: p) = '/' :: slashed p := by
    rcases hc with rfl | rfl <;> rfl
  rw [pieces, hslashed, List.splitOn_cons_eq_if_modifyHead]
  rfl

/-- Any other character goes into the first piece. -/
theorem pieces_cons {c : Char} (hslash : c ≠ '/') (hback : c ≠ '\\') (p : Text) :
    pieces (c :: p) = (pieces p).modifyHead (c :: ·) := by
  have hslashed : slashed (c :: p) = c :: slashed p := by
    rw [slashed, List.map_cons, if_neg hback]
    rfl
  rw [pieces, hslashed, List.splitOn_cons_eq_if_modifyHead, if_neg (by simpa using hslash)]
  rfl

/-- A text without separators is one piece. -/
theorem pieces_eq_singleton {p : Text} (hslash : '/' ∉ p) (hback : '\\' ∉ p) : pieces p = [p] := by
  rw [pieces, slashed_eq_self hback]
  have hone : ∀ s ∈ [p], '/' ∉ s := by simpa using hslash
  simpa using List.splitOn_intercalate '/' hone (by simp)

/-- **The pieces of a path are the pieces of its segments.** -/
theorem pieces_eq_flatMap (p : Text) : pieces p = (p.splitOn '/').flatMap pieces := by
  induction p with
  | nil => rfl
  | cons c p ih =>
    obtain ⟨s, segs, hsplit⟩ := List.exists_cons_of_ne_nil (List.splitOn_ne_nil '/' p)
    by_cases hslash : c = '/'
    · rw [pieces_separator (.inl hslash), ih, hslash, List.splitOn_cons_eq_if_modifyHead]
      rfl
    · have hcons : (c :: p).splitOn '/' = (c :: s) :: segs := by
        rw [List.splitOn_cons_eq_if_modifyHead, if_neg (by simpa using hslash), hsplit]
        rfl
      rw [hsplit, List.flatMap_cons] at ih
      rw [hcons, List.flatMap_cons]
      by_cases hback : c = '\\'
      · rw [pieces_separator (.inr hback), pieces_separator (.inr hback), ih, List.cons_append]
      · obtain ⟨t, ts, hpieces⟩ := List.exists_cons_of_ne_nil (pieces_ne_nil s)
        rw [pieces_cons hslash hback, pieces_cons hslash hback, ih, hpieces]
        rfl

theorem piecesOf_eq_foldl (segments : List Text) :
    piecesOf segments = (segments.flatMap pieces).foldl applySegment [] := by
  rw [piecesOf, List.foldl_flatMap]
  rfl

theorem piecesOf_isPlain (segments : List Text) : ∀ s ∈ piecesOf segments, IsPlain s := by
  rw [piecesOf_eq_foldl]
  refine foldl_applySegment_isPlain (by simp) ?_
  intro t ht
  obtain ⟨s, -, hts⟩ := List.mem_flatMap.mp ht
  obtain ⟨hslash, hmem⟩ := of_mem_splitOn hts
  exact ⟨hslash, fun hback => backslash_not_mem_slashed s (hmem _ hback)⟩

/-! ## The two ways of working out -/

theorem resolvedSegments_eq_namesOf (p : Text) :
    resolvedSegments p = (namesOf (p.splitOn '/')).reverse := rfl

theorem resolvedSegments_slashed (p : Text) :
    resolvedSegments (slashed p) = (piecesOf (p.splitOn '/')).reverse := by
  rw [piecesOf_eq_foldl, ← pieces_eq_flatMap]
  rfl

/-- A name is neither empty nor a dot or two, and has no slash. -/
theorem of_mem_namesOf {segments : List Text} (h : ∀ s ∈ segments, '/' ∉ s) :
    ∀ s ∈ namesOf segments, IsSegment s ∧ s ≠ ['.'] ∧ s ≠ ['.', '.'] := by
  induction segments using List.reverseRecOn with
  | nil => simp [namesOf]
  | append_singleton segments t ih =>
    have hbefore := ih fun s hs => h s (List.mem_append_left _ hs)
    rw [namesOf_concat]
    unfold applySegment
    split
    · exact hbefore
    · next hnone =>
      rw [not_or] at hnone
      split
      · exact fun s hs => hbefore s (List.mem_of_mem_tail hs)
      · next hdots =>
        exact List.forall_mem_cons.mpr ⟨⟨⟨hnone.1, h t (by simp)⟩, hnone.2, hdots⟩, hbefore⟩

/-- Names that are written as a path and read again with slashes for their backslashes. -/
theorem resolvedSegments_slashed_collapse (p : Text) :
    resolvedSegments (slashed (collapse p)) = (piecesOf (resolvedSegments p)).reverse := by
  have hslash : ∀ s ∈ resolvedSegments p, '/' ∉ s := by
    intro s hs
    rw [resolvedSegments_eq_namesOf, List.mem_reverse] at hs
    exact (of_mem_namesOf (fun t ht => (of_mem_splitOn ht).1) s hs).1.2
  have hbody : resolvedSegments (slashed (['/'].intercalate (resolvedSegments p))) =
      (piecesOf (resolvedSegments p)).reverse := by
    cases hnames : resolvedSegments p with
    | nil => rfl
    | cons s names =>
      rw [resolvedSegments_slashed, List.splitOn_intercalate '/' (hnames ▸ hslash) (by simp)]
  unfold collapse leadingSlashes
  split
  · show resolvedSegments ('/' :: '/' :: slashed (['/'].intercalate (resolvedSegments p))) = _
    rw [resolvedSegments_slash, resolvedSegments_slash, hbody]
  · show resolvedSegments ('/' :: slashed (['/'].intercalate (resolvedSegments p))) = _
    rw [resolvedSegments_slash, hbody]

/-- Blanks are no separators, so a path is stripped alike under both spellings. -/
theorem stripEnd_slashed (p : Text) : Text.stripEnd (slashed p) = slashed (Text.stripEnd p) := by
  have hblank : isBlank ∘ (fun c : Char => if c = '\\' then '/' else c) = isBlank := by
    funext c
    by_cases hc : c = '\\'
    · subst hc
      rfl
    · rw [Function.comp_apply, if_neg hc]
  unfold Text.stripEnd Text.dropEndWhile slashed
  rw [← List.map_reverse, List.dropWhile_map, hblank, List.map_reverse]

/-- **Between slashes first, and what is left between separators of either kind.** -/
theorem normalize_eq_piecesOf_namesOf (around : Surroundings) (p : Text) :
    normalize around ('/' :: p) =
      .ok (ofSegments (piecesOf (namesOf ((Text.stripEnd p).splitOn '/')).reverse)) := by
  have hplain := resolvedSegments_isPlain (backslash_not_mem_slashed (collapse ('/' :: Text.stripEnd p)))
  rw [normalize_slash, singleLeading_collapse fun s hs => (hplain s hs).1,
    cons_intercalate_eq_ofSegments, resolvedSegments_slashed_collapse, resolvedSegments_slash,
    List.reverse_reverse, resolvedSegments_eq_namesOf]

/-- **Under the other spelling, between separators of either kind from the start.** -/
theorem normalize_slashed_eq_piecesOf (around : Surroundings) (p : Text) :
    normalize around (slashed ('/' :: p)) =
      .ok (ofSegments (piecesOf ((Text.stripEnd p).splitOn '/'))) := by
  have hplain := resolvedSegments_isPlain (backslash_not_mem_slashed ('/' :: Text.stripEnd p))
  have hagain := resolvedSegments_collapse hplain
  show normalize around ('/' :: slashed p) = _
  rw [normalize_slash, stripEnd_slashed]
  show Except.ok (singleLeading (collapse (slashed (collapse (slashed ('/' :: Text.stripEnd p)))))) = _
  rw [slashed_eq_self (backslash_not_mem_collapse hplain),
    singleLeading_collapse (by rw [hagain]; exact fun s hs => (hplain s hs).1), hagain,
    cons_intercalate_eq_ofSegments]
  show Except.ok (ofSegments (resolvedSegments ('/' :: slashed (Text.stripEnd p))).reverse) = _
  rw [resolvedSegments_slash, resolvedSegments_slashed, List.reverse_reverse]

/-! ## Where they part -/

/-- The path has one normal form, whether its backslashes are slashes or not. -/
def UnifiesSeparators (around : Surroundings) (p : Text) : Prop :=
  normalize around p = normalize around (slashed p)

/-- The names that are left after working out between slashes come to what the segments come to. -/
def Reopened (segments : List Text) : Prop := piecesOf (namesOf segments).reverse = piecesOf segments

/-- Of names, the last one first, the last is one name also if its backslashes separate: without it all
but the last one is left. -/
def AtOneName (names : List Text) : Prop :=
  piecesOf names.tail.reverse = (piecesOf names.reverse).tail

instance (names : List Text) : Decidable (AtOneName names) := inferInstanceAs (Decidable (_ = _))

/-- **One more segment keeps both ways together, unless it is a `..` that does not take away one name.** -/
theorem reopened_concat_iff {segments : List Text} (h : Reopened segments) (s : Text) :
    Reopened (segments ++ [s]) ↔ (s = ['.', '.'] → AtOneName (namesOf segments)) := by
  unfold Reopened at h ⊢
  rw [namesOf_concat, piecesOf_concat, ← h]
  by_cases hnone : s = [] ∨ s = ['.']
  · -- Neither way does anything.
    have hnames : applySegment (namesOf segments) s = namesOf segments := if_pos hnone
    rw [hnames]
    refine iff_of_true ?_ ?_
    · rcases hnone with rfl | rfl <;> rfl
    · rintro rfl
      rcases hnone with hs | hs <;> cases hs
  · by_cases hdots : s = ['.', '.']
    · subst hdots
      exact ⟨fun heq _ => heq, fun hone => hone rfl⟩
    · have hnames : applySegment (namesOf segments) s = s :: namesOf segments := by
        unfold applySegment
        rw [if_neg hnone, if_neg hdots]
      rw [hnames, List.reverse_cons, piecesOf_concat]
      exact iff_of_true rfl fun hs => absurd hs hdots

/-- **Both ways stay together from the first segment on exactly if every `..` takes away one name.** -/
theorem forall_reopened_iff (segments : List Text) :
    (∀ q, q <+: segments → Reopened q) ↔
      ∀ q, q ++ [['.', '.']] <+: segments → AtOneName (namesOf q) := by
  constructor
  · intro h q hq
    exact (reopened_concat_iff (h q ((List.prefix_append _ _).trans hq)) _).mp (h _ hq) rfl
  · intro h q
    induction q using List.reverseRecOn with
    | nil => exact fun _ => rfl
    | append_singleton q s ih =>
      intro hq
      refine (reopened_concat_iff (ih ((List.prefix_append _ _).trans hq)) s).mpr ?_
      rintro rfl
      exact h q hq

/-- A name without backslashes is one name. -/
theorem atOneName_cons {s : Text} {names : List Text} (hs : IsPlain s) : AtOneName (s :: names) := by
  have hpieces : pieces s = [s] := pieces_eq_singleton hs.1.2 hs.2.2.2
  rw [AtOneName, List.reverse_cons, piecesOf_concat, applyPieces, hpieces]
  show piecesOf names.reverse = (applySegment (piecesOf names.reverse) s).tail
  rw [applySegment_of_isPlain hs]
  rfl

theorem atOneName_nil : AtOneName [] := rfl

/-- The path of these segments, a slash after each. -/
def rooted (segments : List Text) : Text := '/' :: segments.flatMap (· ++ ['/'])

theorem splitOn_flatMap_slash {segments : List Text} (h : ∀ s ∈ segments, '/' ∉ s) :
    (segments.flatMap (· ++ ['/'])).splitOn '/' = segments ++ [[]] := by
  have hbody : segments.flatMap (· ++ ['/']) = ['/'].intercalate (segments ++ [[]]) := by
    induction segments with
    | nil => rfl
    | cons s segments ih =>
      obtain ⟨t, ts, hts⟩ := List.exists_cons_of_ne_nil (l := segments ++ [[]]) (by simp)
      rw [List.flatMap_cons, ih fun x hx => h x (List.mem_cons_of_mem _ hx), List.cons_append, hts,
        List.intercalate_cons_cons]
  rw [hbody, List.splitOn_intercalate '/' _ (by simp)]
  intro s hs
  rcases List.mem_append.mp hs with hs | hs
  · exact h s hs
  · rw [List.mem_singleton.mp hs]
    exact List.not_mem_nil

theorem stripEnd_flatMap_slash (segments : List Text) :
    Text.stripEnd (segments.flatMap (· ++ ['/'])) = segments.flatMap (· ++ ['/']) := by
  refine stripEnd_eq_self_iff.mpr ?_
  rintro ⟨c, hc, hblank⟩
  have hlast : c = '/' := by
    induction segments using List.reverseRecOn with
    | nil => cases hc
    | append_singleton segments s ih =>
      rw [List.flatMap_append, List.flatMap_singleton, ← List.append_assoc] at hc
      simpa using hc.symm
  rw [hlast] at hblank
  cases hblank

theorem unifiesSeparators_slash_iff (around : Surroundings) (p : Text) :
    UnifiesSeparators around ('/' :: p) ↔ Reopened ((Text.stripEnd p).splitOn '/') := by
  rw [UnifiesSeparators, normalize_eq_piecesOf_namesOf, normalize_slashed_eq_piecesOf]
  constructor
  · intro h
    exact ofSegments_injective (fun s hs => (piecesOf_isPlain _ s hs).1)
      (fun s hs => (piecesOf_isPlain _ s hs).1) (Except.ok.inj h)
  · exact congrArg fun names => Except.ok (ofSegments names)

theorem unifiesSeparators_rooted_iff (around : Surroundings) {segments : List Text}
    (h : ∀ s ∈ segments, '/' ∉ s) : UnifiesSeparators around (rooted segments) ↔ Reopened segments := by
  rw [rooted, unifiesSeparators_slash_iff, stripEnd_flatMap_slash, splitOn_flatMap_slash h, Reopened,
    namesOf_concat, piecesOf_concat]
  exact Iff.rfl

/--
**A path that starts with a slash has one normal form, whether its backslashes are slashes or not, if no
`..` between slashes takes away a name with a backslash. It has one, with every path along it, exactly if
every `..` takes away what is one name also if its backslashes separate; by itself it has one exactly if
the names left between slashes come to what all its segments come to.**
-/
theorem unifiesSeparators_iff_atOneName (around : Surroundings) (p : Text) :
    let segments := (Text.stripEnd p).splitOn '/'
    ((∀ q name names, q ++ [['.', '.']] <+: segments → namesOf q = name :: names → '\\' ∉ name) →
      UnifiesSeparators around ('/' :: p)) ∧
    (UnifiesSeparators around ('/' :: p) ∧
        (∀ q, q <+: segments → UnifiesSeparators around (rooted q)) ↔
      ∀ q, q ++ [['.', '.']] <+: segments → AtOneName (namesOf q)) ∧
    (UnifiesSeparators around ('/' :: p) ↔ Reopened segments) := by
  intro segments
  have hslash : ∀ s ∈ segments, '/' ∉ s := fun s hs => (of_mem_splitOn hs).1
  have hexact : UnifiesSeparators around ('/' :: p) ∧
      (∀ q, q <+: segments → UnifiesSeparators around (rooted q)) ↔
        ∀ q, q ++ [['.', '.']] <+: segments → AtOneName (namesOf q) := by
    rw [← forall_reopened_iff, unifiesSeparators_slash_iff]
    have halong : ∀ q, q <+: segments → (UnifiesSeparators around (rooted q) ↔ Reopened q) :=
      fun q hq => unifiesSeparators_rooted_iff around fun s hs => hslash s (hq.subset hs)
    constructor
    · exact fun h q hq => (halong q hq).mp (h.2 q hq)
    · exact fun h => ⟨h segments (List.prefix_refl _), fun q hq => (halong q hq).mpr (h q hq)⟩
  refine ⟨fun h => (hexact.mpr ?_).1, hexact, unifiesSeparators_slash_iff around p⟩
  intro q hq
  have hsegments : ∀ s ∈ q, '/' ∉ s :=
    fun s hs => hslash s (hq.subset (List.mem_append_left _ hs))
  cases hnames : namesOf q with
  | nil => exact atOneName_nil
  | cons name names =>
    obtain ⟨hsegment, hdot, hdots⟩ := of_mem_namesOf hsegments name (by rw [hnames]; simp)
    exact atOneName_cons ⟨hsegment, hdot, hdots, h q name names hq hnames⟩

/-- Here the first `..` takes away a plain name, and the last one a name that ends in a backslash. -/
theorem unifiesSeparators_iff_atOneName_end :
    let around : Surroundings := ⟨"/work".toList, some "/home/user".toList, fun _ => none⟩
    let p := "a\\..\\b/x/../..\\c ".toList
    let longer := "a\\..\\b/x/../c\\/.. ".toList
    ((∀ q name names, q ++ [['.', '.']] <+: (Text.stripEnd p).splitOn '/' →
        namesOf q = name :: names → '\\' ∉ name) ∧ UnifiesSeparators around ('/' :: p)) ∧
      ∀ q, q <+: (Text.stripEnd longer).splitOn '/' → UnifiesSeparators around (rooted q) := by
  intro around p longer
  have hplain : ∀ q name names, q ++ [['.', '.']] <+: (Text.stripEnd p).splitOn '/' →
      namesOf q = name :: names → '\\' ∉ name := by
    have hall : ∀ q ∈ ((Text.stripEnd p).splitOn '/').inits,
        q ++ [['.', '.']] <+: (Text.stripEnd p).splitOn '/' →
          ∀ name ∈ (namesOf q).head?, '\\' ∉ name := by
      decide +kernel
    intro q name names hq hnames
    exact hall q ((List.mem_inits _ _).mpr ((List.prefix_append _ _).trans hq)) hq name
      (by rw [hnames]; rfl)
  have hone : ∀ q, q ++ [['.', '.']] <+: (Text.stripEnd longer).splitOn '/' →
      AtOneName (namesOf q) := by
    have hall : ∀ q ∈ ((Text.stripEnd longer).splitOn '/').inits,
        q ++ [['.', '.']] <+: (Text.stripEnd longer).splitOn '/' → AtOneName (namesOf q) := by
      decide +kernel
    intro q hq
    exact hall q ((List.mem_inits _ _).mpr ((List.prefix_append _ _).trans hq)) hq
  exact ⟨⟨hplain, (unifiesSeparators_iff_atOneName around p).1 hplain⟩,
    ((unifiesSeparators_iff_atOneName around longer).2.1.mpr hone).2⟩

/-- **A `..` behind a name with a backslash takes away what stands on both sides of the backslash.** -/
theorem not_unifiesSeparators :
    let around : Surroundings := ⟨"/work".toList, some "/home/user".toList, fun _ => none⟩
    let p := "/a/b\\c/..".toList
    normalize around p = .ok "/a".toList ∧ normalize around (slashed p) = .ok "/a/b".toList ∧
      ¬ UnifiesSeparators around p := by
  intro around p
  have htwice : normalize around p = .ok "/a".toList := by decide +kernel
  have honce : normalize around (slashed p) = .ok "/a/b".toList := by decide +kernel
  refine ⟨htwice, honce, fun h => ?_⟩
  rw [UnifiesSeparators, htwice, honce] at h
  revert h
  decide

end PathIgnore.Path
