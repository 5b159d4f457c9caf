import PathIgnore.Path.Normalize
import PathIgnore.Proofs.Path.Segments

/-!
# Normal forms are canonical

Whatever is normalised, the result is the absolute path of a list of plain segments
(`exists_ofSegments_of_normalize`). So what holds of lists of segments holds of every path that is
resolved. There is no result exactly where a user is named whose name has U+0000 in it
(`normalize_eq_error_iff`).
-/

namespace PathIgnore.Path

/-- A segment that means itself: neither dot nor double dot, and without a separator of either kind. -/
def IsPlain (s : Text) : Prop := IsSegment s ∧ s ≠ ['.'] ∧ s ≠ ['.', '.'] ∧ '\\' ∉ s

instance (s : Text) : Decidable (IsPlain s) := inferInstanceAs (Decidable (_ ∧ _))

/-! ## Pieces between slashes -/

theorem of_mem_splitOn {p s : Text} (h : s ∈ p.splitOn '/') : '/' ∉ s ∧ ∀ c ∈ s, c ∈ p := by
  induction p generalizing s with
  | nil =>
    rw [List.splitOn_nil, List.mem_singleton] at h
    rw [h]
    exact ⟨List.not_mem_nil, fun _ hc => hc⟩
  | cons d p ih =>
    obtain ⟨t, ts, hsplit⟩ := List.exists_cons_of_ne_nil (List.splitOn_ne_nil '/' p)
    have hnext : ∀ u ∈ t :: ts, '/' ∉ u ∧ ∀ c ∈ u, c ∈ d :: p := by
      intro u hu
      obtain ⟨hslash, hmem⟩ := ih (hsplit ▸ hu)
      exact ⟨hslash, fun c hc => List.mem_cons_of_mem _ (hmem c hc)⟩
    rw [List.splitOn_cons_eq_if_modifyHead, hsplit] at h
    split at h
    · rcases List.mem_cons.mp h with rfl | h
      · exact ⟨List.not_mem_nil, fun c hc => absurd hc List.not_mem_nil⟩
      · exact hnext s h
    · next hd =>
      rw [List.modifyHead_cons] at h
      rcases List.mem_cons.mp h with rfl | h
      · -- The character goes in front of the first piece of the rest.
        obtain ⟨hslash, hmem⟩ := hnext t List.mem_cons_self
        have hne : d ≠ '/' := by simpa using hd
        constructor
        · rw [List.mem_cons, not_or]
          exact ⟨hne.symm, hslash⟩
        · intro c hc
          rcases List.mem_cons.mp hc with rfl | hc
          · exact List.mem_cons_self
          · exact hmem c hc
      · exact hnext s (List.mem_cons_of_mem _ h)

/-! ## Working out segments -/

theorem applySegment_isPlain {above : List Text} {s : Text} (habove : ∀ x ∈ above, IsPlain x)
    (hslash : '/' ∉ s) (hback : '\\' ∉ s) : ∀ x ∈ applySegment above s, IsPlain x := by
  unfold applySegment
  split
  · exact habove
  · next hdot =>
    rw [not_or] at hdot
    split
    · exact fun x hx => habove x (List.mem_of_mem_tail hx)
    · next hdots =>
      intro x hx
      rcases List.mem_cons.mp hx with rfl | hx
      · exact ⟨⟨hdot.1, hslash⟩, hdot.2, hdots, hback⟩
      · exact habove x hx

theorem foldl_applySegment_isPlain {segs above : List Text} (habove : ∀ x ∈ above, IsPlain x)
    (hsegs : ∀ s ∈ segs, '/' ∉ s ∧ '\\' ∉ s) : ∀ x ∈ segs.foldl applySegment above, IsPlain x := by
  induction segs generalizing above with
  | nil => exact habove
  | cons s segs ih =>
    obtain ⟨hslash, hback⟩ := hsegs s List.mem_cons_self
    exact ih (applySegment_isPlain habove hslash hback) fun t ht =>
      hsegs t (List.mem_cons_of_mem _ ht)

/-- Without backslashes the segments that are left are plain. -/
theorem resolvedSegments_isPlain {p : Text} (h : '\\' ∉ p) : ∀ s ∈ resolvedSegments p, IsPlain s := by
  intro s hs
  refine foldl_applySegment_isPlain (by simp) ?_ s (List.mem_reverse.mp hs)
  intro t ht
  obtain ⟨hslash, hmem⟩ := of_mem_splitOn ht
  exact ⟨hslash, fun hback => h (hmem _ hback)⟩

/-! ## Leading slashes -/

theorem stem_eq_flatMap : ∀ l : List Text, stem l = l.reverse.flatMap ('/' :: ·)
  | [] => rfl
  | s :: l => by
    rw [stem, stem_eq_flatMap l, List.reverse_cons, List.flatMap_append]
    simp

theorem cons_intercalate_eq_flatMap : ∀ {l : List Text}, l ≠ [] →
    '/' :: ['/'].intercalate l = l.flatMap ('/' :: ·)
  | [], h => absurd rfl h
  | [s], _ => by simp
  | s :: t :: l, _ => by
    rw [List.intercalate_cons_cons, List.flatMap_cons, ← cons_intercalate_eq_flatMap (by simp)]
    simp

/-- Segments from the outside in, written with one slash in front. -/
theorem cons_intercalate_eq_ofSegments (l : List Text) :
    '/' :: ['/'].intercalate l = ofSegments l.reverse := by
  cases l with
  | nil => rfl
  | cons s l =>
    rw [ofSegments_of_ne_nil (by simp), stem_eq_flatMap, List.reverse_reverse,
      cons_intercalate_eq_flatMap (List.cons_ne_nil s l)]

theorem isSlash_head?_intercalate {l : List Text} (hl : ∀ s ∈ l, IsSegment s) :
    ∀ c ∈ (['/'].intercalate l).head?, isSlash c = false := by
  intro c hc
  cases l with
  | nil => cases hc
  | cons s l =>
    obtain ⟨hne, hslash⟩ := hl s List.mem_cons_self
    obtain ⟨d, s, rfl⟩ := List.exists_cons_of_ne_nil hne
    have hcd : d = c := by
      cases l <;> simpa using hc
    exact isSlash_eq_false_of_mem hslash (hcd ▸ List.mem_cons_self)

/-- Of the slashes in front of a collapsed path one stays. -/
theorem singleLeading_collapse {p : Text} (h : ∀ s ∈ resolvedSegments p, IsSegment s) :
    singleLeading (collapse p) = '/' :: ['/'].intercalate (resolvedSegments p) := by
  have htake : (['/'].intercalate (resolvedSegments p)).takeWhile isSlash = [] := by
    cases hbody : ['/'].intercalate (resolvedSegments p) with
    | nil => rfl
    | cons c body =>
      rw [List.takeWhile_cons, isSlash_head?_intercalate h c (by rw [hbody]; rfl)]
      rfl
  unfold collapse leadingSlashes
  split <;> simp [singleLeading, root, isSlash, htake]

/-! ## Normal forms -/

theorem backslash_not_mem_slashed (p : Text) : '\\' ∉ slashed p := by
  intro h
  obtain ⟨c, _, hc⟩ := List.mem_map.mp h
  split at hc
  · cases hc
  · next hne => exact hne hc

theorem exists_settle_eq_ofSegments (workingDirectory p : Text) :
    ∃ l, (∀ s ∈ l, IsPlain s) ∧ settle workingDirectory p = ofSegments l := by
  unfold settle
  generalize absolute workingDirectory p = full
  have hplain := resolvedSegments_isPlain (backslash_not_mem_slashed full)
  refine ⟨(resolvedSegments (slashed full)).reverse, ?_, ?_⟩
  · exact fun s hs => hplain s (List.mem_reverse.mp hs)
  · rw [singleLeading_collapse fun s hs => (hplain s hs).1, cons_intercalate_eq_ofSegments]

/-- **The normal form of a path is the path of a list of plain segments.** -/
theorem exists_ofSegments_of_normalize {around : Surroundings} {p q : Text}
    (h : normalize around p = .ok q) : ∃ l, (∀ s ∈ l, IsPlain s) ∧ q = ofSegments l := by
  unfold normalize at h
  cases hhome : expandHome around (named around p) with
  | error e =>
    rw [hhome] at h
    cases h
  | ok given =>
    rw [hhome] at h
    obtain ⟨l, hl, hsettled⟩ := exists_settle_eq_ofSegments around.workingDirectory given
    exact ⟨l, hl, (Except.ok.inj h).symm.trans hsettled⟩

/-! ## Paths without a normal form -/

/-- A tilde leads, and there is U+0000 in the name behind it. -/
def NamesNulUser (p : Text) : Prop := p.head? = some '~' ∧ '\x00' ∈ p.takeWhile (!isSlash ·)

instance (p : Text) : Decidable (NamesNulUser p) := inferInstanceAs (Decidable (_ ∧ _))

theorem findHome_eq_error_iff (around : Surroundings) (name : Text) (e : PathFault) :
    around.findHome name = .error e ↔ '\x00' ∈ name := by
  unfold Surroundings.findHome
  split
  · next hnil => simp [hnil]
  · split
    · next hnul => exact iff_of_true (by cases e; rfl) hnul
    · next hnul => exact iff_of_false (fun h => by cases h) hnul

theorem expandHome_eq_error_iff (around : Surroundings) (p : Text) (e : PathFault) :
    expandHome around p = .error e ↔ NamesNulUser p := by
  unfold expandHome
  split
  · next rest =>
    have hname : NamesNulUser ('~' :: rest) ↔ '\x00' ∈ rest.takeWhile (!isSlash ·) := by
      simp [NamesNulUser, isSlash]
    rw [hname, ← findHome_eq_error_iff around _ e]
    cases around.findHome (rest.takeWhile (!isSlash ·)) with
    | error e' => simp [Except.map]
    | ok home? => simp [Except.map]
  · next hnone =>
    refine iff_of_false (fun h => by cases h) ?_
    rintro ⟨hhead, -⟩
    obtain ⟨rest, rfl⟩ := List.head?_eq_some_iff.mp hhead
    exact hnone rest rfl

/-- **There is no normal form exactly if the home of a user is asked for whose name has U+0000 in it.** -/
theorem normalize_eq_error_iff (around : Surroundings) (p : Text) (e : PathFault) :
    normalize around p = .error e ↔ NamesNulUser (named around p) := by
  rw [← expandHome_eq_error_iff around _ e, normalize]
  cases expandHome around (named around p) with
  | error e' => simp [Except.map]
  | ok given => simp [Except.map]

end PathIgnore.Path
