import Mathlib.Data.List.Chain
import PathIgnore.Proofs.Path.Rebase

/-!
# The hierarchy of canonical paths

A canonical path is told by its segments, and a path lies beneath another if its segments start with
the other's and go on (`IsAncestor`). What goes up from a path, what looks down on it from a directory
and what joins a name to a directory all work on characters, each in its own way. On canonical paths
they agree on one hierarchy (`ancestors_relative?_join`).

* `mem_ancestors_iff`: going up meets the ancestors, and nothing else.
* `relative?_of_isAncestor`: from an ancestor, a path is what has to be joined to the ancestor.
* `relative?_of_isChain`: from ancestor to ancestor, the ways down are joined by slashes.
-/

namespace PathIgnore.Path

/-- The segments of a path, the outermost first. -/
def segments (p : Text) : List Text := (p.splitOn '/').filter (· ≠ [])

/-- How many segments a path has. -/
def depth (p : Text) : Nat := (segments p).length

/-- The path lies strictly beneath `a`: its segments start with those of `a` and go on. -/
def IsAncestor (a p : Text) : Prop := segments a <+: segments p ∧ segments a ≠ segments p

instance (a p : Text) : Decidable (IsAncestor a p) := inferInstanceAs (Decidable (_ ∧ _))

/-- No segment is empty: there is no slash at the ends, and none is doubled. -/
def IsRelative (r : Text) : Prop := ∀ s ∈ r.splitOn '/', s ≠ []

/-! ## Segments -/

variable {k l m : List Text}

theorem segments_ofSegments (hl : ∀ s ∈ l, IsSegment s) : segments (ofSegments l) = l.reverse := by
  cases l with
  | nil => decide
  | cons s l =>
    rw [segments, splitOn_ofSegments_cons hl, List.filter_cons_of_neg (by simp), List.filter_eq_self]
    intro x hx
    simpa using (hl x (List.mem_reverse.mp hx)).1

theorem depth_ofSegments (hl : ∀ s ∈ l, IsSegment s) : depth (ofSegments l) = l.length := by
  rw [depth, segments_ofSegments hl, List.length_reverse]

theorem isAncestor_ofSegments_iff (hk : ∀ s ∈ k, IsSegment s) (hl : ∀ s ∈ l, IsSegment s) :
    IsAncestor (ofSegments k) (ofSegments l) ↔ ∃ m, m ≠ [] ∧ m ++ k = l := by
  rw [IsAncestor, segments_ofSegments hk, segments_ofSegments hl, List.reverse_prefix,
    List.reverse_injective.ne_iff]
  constructor
  · rintro ⟨⟨m, rfl⟩, hne⟩
    exact ⟨m, fun hm => hne (by rw [hm, List.nil_append]), rfl⟩
  · rintro ⟨m, hm, rfl⟩
    exact ⟨⟨m, rfl⟩, fun h => hm (List.append_left_eq_self.mp h.symm)⟩

/-- What lies beneath the path of a list of segments is the path of a longer list. -/
theorem IsAncestor.exists_append {p : Text} (hl : ∀ s ∈ l, IsPlain s) (hp : IsCanonical p)
    (h : IsAncestor (ofSegments l) p) :
    ∃ m, m ≠ [] ∧ (∀ s ∈ m ++ l, IsPlain s) ∧ p = ofSegments (m ++ l) := by
  obtain ⟨k, hk, rfl⟩ := isCanonical_iff.mp hp
  obtain ⟨m, hne, rfl⟩ :=
    (isAncestor_ofSegments_iff (fun s hs => (hl s hs).1) fun s hs => (hk s hs).1).mp h
  exact ⟨m, hne, hk, rfl⟩

theorem IsAncestor.irrefl (p : Text) : ¬ IsAncestor p p := fun h => h.2 rfl

theorem IsAncestor.trans {p q t : Text} (hpq : IsAncestor p q) (hqt : IsAncestor q t) :
    IsAncestor p t := by
  refine ⟨hpq.1.trans hqt.1, fun heq => hpq.2 ?_⟩
  have hback : segments q <+: segments p := heq ▸ hqt.1
  exact hpq.1.eq_of_length (Nat.le_antisymm hpq.1.length_le hback.length_le)

/-! ## Going up -/

/-- A list that goes up from a path, ancestor by ancestor. -/
structure IsAscent (t : Text) (l : List Text) : Prop where
  mem_iff : ∀ p, p ∈ l ↔ IsCanonical p ∧ IsAncestor p t
  nearest_first : l.Pairwise fun near far => IsAncestor far near
  nodup : l.Nodup
  length_eq : l.length = depth t
  getLast?_eq : l.getLast? = if t = root then none else some root

/-- **Going up from a canonical path meets its ancestors.** -/
theorem mem_ancestors_iff {p t : Text} (ht : IsCanonical t) :
    p ∈ ancestors t ↔ IsCanonical p ∧ IsAncestor p t := by
  obtain ⟨l, hplain, rfl⟩ := isCanonical_iff.mp ht
  have hl : ∀ s ∈ l, IsSegment s := fun s hs => (hplain s hs).1
  rw [mem_ancestors_ofSegments_iff hl]
  constructor
  · rintro ⟨m, hm, a, rfl, rfl⟩
    have ha : ∀ s ∈ a, IsPlain s := fun s hs => hplain s (List.mem_append_right m hs)
    exact ⟨isCanonical_iff.mpr ⟨a, ha, rfl⟩,
      (isAncestor_ofSegments_iff (fun s hs => (ha s hs).1) hl).mpr ⟨m, hm, rfl⟩⟩
  · rintro ⟨hp, hancestor⟩
    obtain ⟨a, ha, rfl⟩ := isCanonical_iff.mp hp
    obtain ⟨m, hm, rfl⟩ := (isAncestor_ofSegments_iff (fun s hs => (ha s hs).1) hl).mp hancestor
    exact ⟨m, hm, a, rfl, rfl⟩

theorem length_ancestors_ofSegments (hl : ∀ s ∈ l, IsSegment s) :
    (ancestors (ofSegments l)).length = l.length := by
  induction l with
  | nil => exact congrArg List.length ancestors_ofSegments_nil
  | cons s l ih =>
    rw [ancestors_ofSegments_cons hl, List.length_cons, List.length_cons,
      ih fun x hx => hl x (List.mem_cons_of_mem _ hx)]

theorem getLast?_ancestors_ofSegments (hl : ∀ s ∈ l, IsSegment s) :
    (ancestors (ofSegments l)).getLast? = if l = [] then none else some root := by
  induction l with
  | nil => exact congrArg List.getLast? ancestors_ofSegments_nil
  | cons s l ih =>
    rw [ancestors_ofSegments_cons hl, List.getLast?_cons, ih fun x hx => hl x (List.mem_cons_of_mem _ hx),
      if_neg (List.cons_ne_nil s l)]
    split
    · next hnil => rw [hnil]; rfl
    · rfl

theorem pairwise_ancestors_ofSegments (hl : ∀ s ∈ l, IsPlain s) :
    (ancestors (ofSegments l)).Pairwise fun near far => IsAncestor far near := by
  induction l with
  | nil => rw [ancestors_ofSegments_nil]; exact .nil
  | cons s l ih =>
    have htail : ∀ x ∈ l, IsPlain x := fun x hx => hl x (List.mem_cons_of_mem _ hx)
    rw [ancestors_ofSegments_cons fun x hx => (hl x hx).1, List.pairwise_cons]
    refine ⟨fun far hfar => ?_, ih htail⟩
    exact ((mem_ancestors_iff (isCanonical_iff.mpr ⟨l, htail, rfl⟩)).mp hfar).2

theorem isAscent_ancestors {t : Text} (ht : IsCanonical t) : IsAscent t (ancestors t) := by
  have hmem := fun p => mem_ancestors_iff (p := p) ht
  obtain ⟨l, hplain, rfl⟩ := isCanonical_iff.mp ht
  have hl : ∀ s ∈ l, IsSegment s := fun s hs => (hplain s hs).1
  have hpairwise := pairwise_ancestors_ofSegments hplain
  refine ⟨hmem, hpairwise, hpairwise.imp ?_, ?_, ?_⟩
  · rintro near far h rfl
    exact IsAncestor.irrefl near h
  · rw [length_ancestors_ofSegments hl, depth_ofSegments hl]
  · rw [getLast?_ancestors_ofSegments hl]
    cases l with
    | nil => rfl
    | cons s l => rw [if_neg (List.cons_ne_nil s l),
        if_neg (ofSegments_cons_ne_root (hl s List.mem_cons_self))]

/-! ## Looking down -/

variable {a b p t r : Text}

/-- No plain segments are written as a dot. -/
theorem tail_stem_ne_dot (hm : ∀ s ∈ m, IsPlain s) (hne : m ≠ []) : (stem m).tail ≠ ['.'] := by
  intro hdot
  have hstem : stem m = stem [['.']] := by rw [stem_eq_cons_tail hne, hdot]; rfl
  have hlist : m = [['.']] :=
    ofSegments_injective (fun s hs => (hm s hs).1) (by decide) (by rw [ofSegments, ofSegments, hstem])
  exact (hm ['.'] (hlist ▸ List.mem_singleton_self _)).2.1 rfl

/-- **From an ancestor, a path is what has to be joined to the ancestor.** -/
theorem relative?_of_isAncestor (ha : IsCanonical a) (hp : IsCanonical p) (h : IsAncestor a p) :
    ∃ r, relative? a p = some r ∧ r ≠ ['.'] ∧ join a r = p := by
  obtain ⟨l, hl, rfl⟩ := isCanonical_iff.mp ha
  obtain ⟨m, hne, hplain, rfl⟩ := h.exists_append hl hp
  have hlsegments : ∀ s ∈ l, IsSegment s := fun s hs => (hl s hs).1
  have hm : ∀ s ∈ m, IsPlain s := fun s hs => hplain s (List.mem_append_left _ hs)
  refine ⟨(stem m).tail, relative?_ofSegments (fun s hs => (hm s hs).1) hlsegments hne,
    tail_stem_ne_dot hm hne, ?_⟩
  rw [join_ofSegments_eq hlsegments, ← stem_eq_cons_tail hne, ← stem_append,
    ofSegments_of_ne_nil (by simp [hne])]

theorem relative?_self (p : Text) : relative? p p = some ['.'] := by rw [relative?, if_pos rfl]

theorem isWithin_iff (ha : IsCanonical a) (hp : IsCanonical p) :
    isWithin a p = true ↔ a = p ∨ IsAncestor a p := by
  obtain ⟨l, hl, rfl⟩ := isCanonical_iff.mp ha
  obtain ⟨k, hk, rfl⟩ := isCanonical_iff.mp hp
  have hlsegments : ∀ s ∈ l, IsSegment s := fun s hs => (hl s hs).1
  have hksegments : ∀ s ∈ k, IsSegment s := fun s hs => (hk s hs).1
  rw [isWithin_ofSegments_iff hlsegments hksegments, isAncestor_ofSegments_iff hlsegments hksegments]
  constructor
  · rintro ⟨m, rfl⟩
    cases m with
    | nil => exact .inl rfl
    | cons s m => exact .inr ⟨s :: m, List.cons_ne_nil s m, rfl⟩
  · rintro (heq | ⟨m, -, rfl⟩)
    · exact ofSegments_injective hlsegments hksegments heq ▸ List.suffix_rfl
    · exact List.suffix_append m l

/-- **A path looks like a dot from itself and like more than that from its ancestors, and it is not seen
from any other path.** -/
theorem relative?_cases (ha : IsCanonical a) (hp : IsCanonical p) :
    a = p ∧ relative? a p = some ['.'] ∨
      IsAncestor a p ∧ (∃ r, relative? a p = some r ∧ r ≠ ['.'] ∧ join a r = p) ∨
      a ≠ p ∧ ¬ IsAncestor a p ∧ relative? a p = none := by
  by_cases heq : a = p
  · exact .inl ⟨heq, heq ▸ relative?_self a⟩
  · by_cases hancestor : IsAncestor a p
    · exact .inr (.inl ⟨hancestor, relative?_of_isAncestor ha hp hancestor⟩)
    · have hwithin : ¬ isWithin a p = true := by
        rw [isWithin_iff ha hp, not_or]
        exact ⟨heq, hancestor⟩
      exact .inr (.inr ⟨heq, hancestor, Option.not_isSome_iff_eq_none.mp hwithin⟩)

/-- What is joined to a path is what the whole looks like from the path. -/
theorem relative?_join (ha : IsCanonical a) (hr : IsRelative r) : relative? a (join a r) = some r := by
  obtain ⟨l, hlsegments, rfl⟩ := ha.exists_segments
  obtain ⟨m, hm⟩ : ∃ m, m = (r.splitOn '/').reverse := ⟨_, rfl⟩
  have hmsegments : ∀ s ∈ m, IsSegment s := by
    intro s hs
    rw [hm, List.mem_reverse] at hs
    exact ⟨hr s hs, (of_mem_splitOn hs).1⟩
  have hne : m ≠ [] := by
    rw [hm, Ne, List.reverse_eq_nil_iff]
    exact List.splitOn_ne_nil '/' r
  have hstem : stem m = '/' :: r := by
    rw [← ofSegments_of_ne_nil hne, hm, ← cons_intercalate_eq_ofSegments, List.intercalate_splitOn]
  rw [join_ofSegments_eq hlsegments, ← hstem, ← stem_append, ← ofSegments_of_ne_nil (by simp [hne]),
    relative?_ofSegments hmsegments hlsegments hne, hstem]
  rfl

/-! ## From ancestor to ancestor -/

/-- **Two ways down are joined by a slash.** -/
theorem relative?_trans {x y : Text} (ha : IsCanonical a) (hb : IsCanonical b) (ht : IsCanonical t)
    (hab : IsAncestor a b) (hbt : IsAncestor b t) (hx : relative? a b = some x)
    (hy : relative? b t = some y) : relative? a t = some (x ++ '/' :: y) := by
  obtain ⟨l, hl, rfl⟩ := isCanonical_iff.mp ha
  obtain ⟨m, hm, hmplain, rfl⟩ := hab.exists_append hl hb
  obtain ⟨n, hn, hnplain, rfl⟩ := hbt.exists_append hmplain ht
  rw [← List.append_assoc] at hnplain
  have hsegments : ∀ s ∈ n ++ m ++ l, IsSegment s := fun s hs => (hnplain s hs).1
  obtain ⟨hnm, hlsegments⟩ := List.forall_mem_append.mp hsegments
  obtain ⟨hnsegments, hmsegments⟩ := List.forall_mem_append.mp hnm
  rw [relative?_ofSegments hmsegments hlsegments hm] at hx
  rw [relative?_ofSegments hnsegments (List.forall_mem_append.mpr ⟨hmsegments, hlsegments⟩) hn] at hy
  cases hx
  cases hy
  have hwhole : stem (n ++ m) = '/' :: ((stem m).tail ++ '/' :: (stem n).tail) := by
    rw [stem_append, stem_eq_cons_tail hm, stem_eq_cons_tail hn]
    rfl
  rw [← List.append_assoc, relative?_ofSegments hnm hlsegments (by simp [hn]), hwhole]
  rfl

/-- **Along a chain of ancestors the ways from one to the next, joined by slashes, are the way from the
first to the last.** -/
theorem relative?_of_isChain (ht : IsCanonical t) {between : List Text}
    (hchain : (a :: (between ++ [t])).IsChain fun p q => p ∈ ancestors q) :
    a ∈ ancestors t ∧ ∃ steps : List Text,
      List.zipWith relative? (a :: between) (between ++ [t]) = steps.map some ∧
        relative? a t = some (['/'].intercalate steps) := by
  induction between generalizing a with
  | nil =>
    have hmem : a ∈ ancestors t := List.isChain_pair.mp hchain
    obtain ⟨ha, hancestor⟩ := (mem_ancestors_iff ht).mp hmem
    obtain ⟨x, hx, -⟩ := relative?_of_isAncestor ha ht hancestor
    exact ⟨hmem, [x], by simpa using hx, by simpa using hx⟩
  | cons b between ih =>
    obtain ⟨hab, hrest⟩ := List.isChain_cons_cons.mp hchain
    obtain ⟨hbt, steps, hsteps, hy⟩ := ih hrest
    obtain ⟨hb, hbt⟩ := (mem_ancestors_iff ht).mp hbt
    obtain ⟨ha, hab⟩ := (mem_ancestors_iff hb).mp hab
    obtain ⟨x, hx, -⟩ := relative?_of_isAncestor ha hb hab
    have hne : steps ≠ [] := by
      rintro rfl
      have hlength := congrArg List.length hsteps
      simp at hlength
    refine ⟨(mem_ancestors_iff ht).mpr ⟨ha, hab.trans hbt⟩, x :: steps, ?_, ?_⟩
    · rw [List.cons_append, List.zipWith_cons_cons, hx, hsteps, List.map_cons]
    · rw [relative?_trans ha hb ht hab hbt hx hy]
      obtain ⟨y, ys, rfl⟩ := List.exists_cons_of_ne_nil hne
      rw [List.intercalate_cons_cons, List.append_assoc]
      rfl

/-! ## One hierarchy -/

/-- **The ancestors are the paths from which a path looks like more than a dot.** -/
theorem mem_ancestors_iff_relative? (ha : IsCanonical a) (ht : IsCanonical t) :
    a ∈ ancestors t ↔ relative? a t ≠ none ∧ relative? a t ≠ some ['.'] := by
  rw [mem_ancestors_iff ht]
  rcases relative?_cases ha ht with ⟨rfl, h⟩ | ⟨hancestor, r, h, hdot, -⟩ | ⟨-, hnot, h⟩
  · simp [h, IsAncestor.irrefl]
  · simp [h, hdot, ha, hancestor]
  · simp [h, hnot]

theorem relative?_eq_dot_iff (ha : IsCanonical a) (ht : IsCanonical t) :
    relative? a t = some ['.'] ↔ a = t := by
  rcases relative?_cases ha ht with ⟨heq, h⟩ | ⟨hancestor, r, h, hdot, -⟩ | ⟨hne, -, h⟩
  · exact iff_of_true h heq
  · refine iff_of_false (by simpa [h] using hdot) ?_
    rintro rfl
    exact IsAncestor.irrefl a hancestor
  · exact iff_of_false (by simp [h]) hne

theorem join_of_relative? (ha : IsCanonical a) (ht : IsCanonical t) (hr : relative? a t = some r)
    (hdot : r ≠ ['.']) : join a r = t := by
  have hmem : a ∈ ancestors t := by
    rw [mem_ancestors_iff_relative? ha ht, hr]
    exact ⟨Option.some_ne_none r, by simpa using hdot⟩
  obtain ⟨x, hx, -, hjoin⟩ := relative?_of_isAncestor ha ht ((mem_ancestors_iff ht).mp hmem).2
  rw [hr, Option.some.injEq] at hx
  exact hx ▸ hjoin

theorem isWithin_antisymm (ha : IsCanonical a) (ht : IsCanonical t) (hat : isWithin a t = true)
    (hta : isWithin t a = true) : a = t := by
  rw [isWithin_iff ha ht] at hat
  rw [isWithin_iff ht ha] at hta
  rcases hat with heq | hat
  · exact heq
  · rcases hta with heq | hta
    · exact heq.symm
    · exact absurd (hat.trans hta) (IsAncestor.irrefl a)

theorem isWithin_trans (ha : IsCanonical a) (hb : IsCanonical b) (ht : IsCanonical t)
    (hab : isWithin a b = true) (hbt : isWithin b t = true) : isWithin a t = true := by
  rw [isWithin_iff ha hb] at hab
  rw [isWithin_iff hb ht] at hbt
  rw [isWithin_iff ha ht]
  rcases hab with rfl | hab
  · exact hbt
  · rcases hbt with rfl | hbt
    · exact .inr hab
    · exact .inr (hab.trans hbt)

/--
**On canonical paths, going up, looking down, joining and lying within agree.** What goes up from a path
meets exactly its ancestors, the nearest first and one for each segment, and ends at the root. Just from
these the path looks like more than a dot, and joining that to the ancestor gives the path back. Lying
within is a partial order, and along it the ways down are joined by slashes.
-/
theorem ancestors_relative?_join (ha : IsCanonical a) (ht : IsCanonical t) :
    IsAscent t (ancestors t) ∧
    (a ∈ ancestors t ↔ relative? a t ≠ none ∧ relative? a t ≠ some ['.']) ∧
    (relative? a t = some ['.'] ↔ a = t) ∧
    (∀ r, relative? a t = some r → r ≠ ['.'] → join a r = t) ∧
    (∀ r, IsRelative r → relative? a (join a r) = some r) ∧
    (isWithin t t = true ∧ (isWithin a t = true → isWithin t a = true → a = t) ∧
      ∀ b, IsCanonical b → isWithin a b = true → isWithin b t = true → isWithin a t = true) ∧
    ∀ between, (a :: (between ++ [t])).IsChain (fun p q => p ∈ ancestors q) →
      ∃ steps : List Text,
        List.zipWith relative? (a :: between) (between ++ [t]) = steps.map some ∧
          relative? a t = some (['/'].intercalate steps) :=
  ⟨isAscent_ancestors ht, mem_ancestors_iff_relative? ha ht, relative?_eq_dot_iff ha ht,
    fun _ => join_of_relative? ha ht, fun _ => relative?_join ha,
    ⟨(isWithin_iff ht ht).mpr (.inl rfl), isWithin_antisymm ha ht,
      fun _ hb => isWithin_trans ha hb ht⟩,
    fun _ hchain => (relative?_of_isChain ht hchain).2⟩

/-- A name that comes again further down, and one that only starts with another. -/
theorem ancestors_relative?_join_again :
    let a := "/r".toList
    let b := "/r/rs".toList
    let t := "/r/rs/r".toList
    (IsCanonical a ∧ IsCanonical t ∧ [a, b, t].IsChain fun p q => p ∈ ancestors q) ∧
      IsAscent t [b, a, root] ∧ join a "rs/r".toList = t ∧
      ∃ steps : List Text, List.zipWith relative? [a, b] [b, t] = steps.map some ∧
        relative? a t = some (['/'].intercalate steps) := by
  intro a b t
  have ha : IsCanonical a := .inr ⟨"r".toList, rfl, by decide⟩
  have ht : IsCanonical t := .inr ⟨"r/rs/r".toList, rfl, by decide⟩
  have hchain : [a, b, t].IsChain fun p q => p ∈ ancestors q := by decide +kernel
  obtain ⟨hascent, -, -, hjoin, -, -, hsteps⟩ := ancestors_relative?_join ha ht
  have hancestors : ancestors t = [b, a, root] := by decide +kernel
  exact ⟨⟨ha, ht, hchain⟩, hancestors ▸ hascent, hjoin _ (by decide) (by decide), hsteps [b] hchain⟩

end PathIgnore.Path
