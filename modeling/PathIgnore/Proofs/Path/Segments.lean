import PathIgnore.Path.Basic

/-!
# Paths as lists of segments

`ofSegments` writes a list of segments, the innermost first, as an absolute path. On such paths the
functions on texts are functions on lists.

* `dirName_ofSegments_cons`, `baseName_ofSegments_cons`: the tail and the head.
* `mem_ancestors_ofSegments_iff`: the ancestors are the proper ends of the list.
* `isWithin_ofSegments_iff`: one path lies within another if its list ends in the other's.
-/

namespace PathIgnore.Path

/-- A text that can stand between two slashes. -/
def IsSegment (s : Text) : Prop := s ≠ [] ∧ '/' ∉ s

instance (s : Text) : Decidable (IsSegment s) := inferInstanceAs (Decidable (_ ∧ _))

/-- Every segment with a slash in front, the innermost segment last. -/
def stem : List Text → Text
  | [] => []
  | s :: above => stem above ++ '/' :: s

/-- The absolute path with these segments, the innermost first. -/
def ofSegments (l : List Text) : Text := orRoot (stem l)

@[simp] theorem ofSegments_nil : ofSegments [] = root := rfl

theorem stem_ne_nil {l : List Text} (h : l ≠ []) : stem l ≠ [] := by
  cases l with
  | nil => exact absurd rfl h
  | cons s l => simp [stem]

theorem ofSegments_cons (s : Text) (l : List Text) : ofSegments (s :: l) = stem l ++ '/' :: s :=
  if_neg (stem_ne_nil (List.cons_ne_nil s l))

theorem ofSegments_of_ne_nil {l : List Text} (h : l ≠ []) : ofSegments l = stem l := by
  cases l with
  | nil => exact absurd rfl h
  | cons s l => exact ofSegments_cons s l

theorem stem_append (m a : List Text) : stem (m ++ a) = stem a ++ stem m := by
  induction m with
  | nil => simp [stem]
  | cons s m ih => rw [List.cons_append, stem, ih, stem, List.append_assoc]

/-! ## Slashes at the end -/

theorem isSlash_eq_false_of_mem {s : Text} (h : '/' ∉ s) {c : Char} (hc : c ∈ s) :
    isSlash c = false := by
  rw [isSlash, beq_eq_false_iff_ne]
  rintro rfl
  exact h hc

/-- A path that goes on with a segment ends in no slash. -/
theorem dropEndSlashes_append {s : Text} (hs : IsSegment s) (t : Text) :
    dropEndSlashes (t ++ s) = t ++ s := by
  refine Text.dropEndWhile_eq_self ?_
  intro c hc
  rw [List.getLast?_append, List.getLast?_eq_some_getLast hs.1, Option.some_or] at hc
  cases hc
  exact isSlash_eq_false_of_mem hs.2 (List.getLast_mem hs.1)

theorem dropEndSlashes_stem {l : List Text} (hl : ∀ s ∈ l, IsSegment s) :
    dropEndSlashes (stem l) = stem l := by
  cases l with
  | nil => rfl
  | cons s l =>
    rw [show stem (s :: l) = (stem l ++ ['/']) ++ s from by simp [stem]]
    exact dropEndSlashes_append (hl s List.mem_cons_self) _

theorem dropEndSlashes_ofSegments {l : List Text} (hl : ∀ s ∈ l, IsSegment s) :
    dropEndSlashes (ofSegments l) = stem l := by
  cases l with
  | nil => rfl
  | cons s l => rw [ofSegments_of_ne_nil (List.cons_ne_nil s l), dropEndSlashes_stem hl]

theorem trimEnd_ofSegments {l : List Text} (hl : ∀ s ∈ l, IsSegment s) :
    trimEnd (ofSegments l) = ofSegments l := by
  rw [trimEnd, dropEndSlashes_ofSegments hl, ofSegments]

/-! ## Head and tail -/

/-- Going back over a slash-free text stops at the slash before it. -/
theorem dropEndWhile_slashFree {s : Text} (h : '/' ∉ s) (t : Text) :
    Text.dropEndWhile (!isSlash ·) (t ++ '/' :: s) = t ++ ['/'] := by
  have hall : ∀ c ∈ s.reverse, (!isSlash c) = true := fun c hc => by
    rw [isSlash_eq_false_of_mem h (List.mem_reverse.mp hc), Bool.not_false]
  rw [Text.dropEndWhile, List.reverse_append, List.reverse_cons, List.append_assoc,
    List.dropWhile_append_of_pos hall]
  simp [isSlash]

theorem takeEndWhile_slashFree {s : Text} (h : '/' ∉ s) (t : Text) :
    Text.takeEndWhile (!isSlash ·) (t ++ '/' :: s) = s := by
  have hall : ∀ c ∈ s.reverse, (!isSlash c) = true := fun c hc => by
    rw [isSlash_eq_false_of_mem h (List.mem_reverse.mp hc), Bool.not_false]
  rw [Text.takeEndWhile, List.reverse_append, List.reverse_cons, List.append_assoc,
    List.takeWhile_append_of_pos hall]
  simp [isSlash]

variable {s : Text} {l : List Text}

/-- **The base name is the innermost segment.** -/
theorem baseName_ofSegments_cons (hl : ∀ x ∈ s :: l, IsSegment x) :
    baseName (ofSegments (s :: l)) = s := by
  rw [baseName, dropEndSlashes_ofSegments hl]
  exact takeEndWhile_slashFree (hl s List.mem_cons_self).2 _

theorem all_isSlash_stem_cons {s : Text} (hs : IsSegment s) (l : List Text) (t : Text) :
    (stem (s :: l) ++ t).all isSlash = false := by
  obtain ⟨c, hc⟩ := List.exists_mem_of_ne_nil s hs.1
  rw [List.all_eq_false]
  refine ⟨c, ?_, by rw [isSlash_eq_false_of_mem hs.2 hc]; exact Bool.false_ne_true⟩
  simp [stem, hc]

/-- **The directory has the segments but the innermost.** -/
theorem dirName_ofSegments_cons (hl : ∀ x ∈ s :: l, IsSegment x) :
    dirName (ofSegments (s :: l)) = ofSegments l := by
  have hhead : headPart (ofSegments (s :: l)) = stem l ++ ['/'] := by
    rw [headPart, dropEndSlashes_ofSegments hl]
    exact dropEndWhile_slashFree (hl s List.mem_cons_self).2 _
  have htail : ∀ x ∈ l, IsSegment x := fun x hx => hl x (List.mem_cons_of_mem _ hx)
  rw [dirName, hhead]
  cases l with
  | nil => rfl
  | cons t l =>
    have hdrop : dropEndSlashes (stem (t :: l) ++ ['/']) = stem (t :: l) := by
      rw [dropEndSlashes, Text.dropEndWhile_concat]
      exact dropEndSlashes_stem htail
    rw [all_isSlash_stem_cons (htail t List.mem_cons_self), hdrop]
    rfl

theorem ofSegments_cons_ne_root (hs : IsSegment s) : ofSegments (s :: l) ≠ root := by
  intro h
  have hall := all_isSlash_stem_cons hs l []
  rw [List.append_nil, ← ofSegments_of_ne_nil (List.cons_ne_nil s l), h] at hall
  cases hall

/-- **A path determines its segments.** -/
theorem ofSegments_injective : ∀ {l m : List Text}, (∀ s ∈ l, IsSegment s) →
    (∀ s ∈ m, IsSegment s) → ofSegments l = ofSegments m → l = m
  | [], [], _, _, _ => rfl
  | [], s :: m, _, hm, h => absurd h.symm (ofSegments_cons_ne_root (hm s List.mem_cons_self))
  | s :: l, [], hl, _, h => absurd h (ofSegments_cons_ne_root (hl s List.mem_cons_self))
  | s :: l, t :: m, hl, hm, h => by
    have hhead : s = t := by
      rw [← baseName_ofSegments_cons hl, h, baseName_ofSegments_cons hm]
    have htail : ofSegments l = ofSegments m := by
      rw [← dirName_ofSegments_cons hl, h, dirName_ofSegments_cons hm]
    rw [hhead, ofSegments_injective (fun x hx => hl x (List.mem_cons_of_mem _ hx))
      (fun x hx => hm x (List.mem_cons_of_mem _ hx)) htail]

/-- What is joined to a path stands behind its segments and a slash. -/
theorem join_ofSegments_eq (hl : ∀ x ∈ l, IsSegment x) (rest : Text) :
    join (ofSegments l) rest = stem l ++ '/' :: rest := by
  rw [join]
  cases l with
  | nil => rfl
  | cons s l =>
    have hs := hl s List.mem_cons_self
    have hlast : (stem (s :: l)).getLast? ≠ some '/' := by
      rw [stem, List.getLast?_append, List.getLast?_cons, List.getLast?_eq_some_getLast hs.1]
      intro h
      exact hs.2 (Option.some.inj h ▸ List.getLast_mem hs.1)
    rw [ofSegments_of_ne_nil (List.cons_ne_nil s l), if_neg hlast]

/-- **Joining a name adds an innermost segment.** -/
theorem join_ofSegments (hl : ∀ x ∈ l, IsSegment x) (name : Text) :
    join (ofSegments l) name = ofSegments (name :: l) := by
  rw [ofSegments_cons, join_ofSegments_eq hl]

/-! ## Ancestors -/

theorem ancestors_ofSegments_nil : ancestors (ofSegments []) = [] := by
  rw [ancestors, trimEnd_ofSegments (by simp), ofSegments_nil, ancestorsFrom_root]

theorem ancestors_ofSegments_cons (hl : ∀ x ∈ s :: l, IsSegment x) :
    ancestors (ofSegments (s :: l)) = ofSegments l :: ancestors (ofSegments l) := by
  have htail : ∀ x ∈ l, IsSegment x := fun x hx => hl x (List.mem_cons_of_mem _ hx)
  rw [ancestors, trimEnd_ofSegments hl,
    ancestorsFrom_of_ne (ofSegments_cons_ne_root (hl s List.mem_cons_self)),
    dirName_ofSegments_cons hl, ancestors, trimEnd_ofSegments htail]

/-- **The ancestors are the proper ends of the list of segments.** -/
theorem mem_ancestors_ofSegments_iff (hl : ∀ s ∈ l, IsSegment s) {p : Text} :
    p ∈ ancestors (ofSegments l) ↔ ∃ m, m ≠ [] ∧ ∃ a, m ++ a = l ∧ p = ofSegments a := by
  induction l with
  | nil =>
    rw [ancestors_ofSegments_nil]
    refine iff_of_false List.not_mem_nil ?_
    rintro ⟨m, hm, a, heq, -⟩
    exact hm (List.append_eq_nil_iff.mp heq).1
  | cons s l ih =>
    rw [ancestors_ofSegments_cons hl, List.mem_cons, ih fun x hx => hl x (List.mem_cons_of_mem _ hx)]
    constructor
    · rintro (rfl | ⟨m, _, a, rfl, rfl⟩)
      · exact ⟨[s], List.cons_ne_nil _ _, l, rfl, rfl⟩
      · exact ⟨s :: m, List.cons_ne_nil _ _, a, rfl, rfl⟩
    · rintro ⟨m, hm, a, heq, rfl⟩
      cases m with
      | nil => exact absurd rfl hm
      | cons t m =>
        rw [List.cons_append, List.cons.injEq] at heq
        obtain ⟨-, rfl⟩ := heq
        cases m with
        | nil => exact .inl rfl
        | cons u m => exact .inr ⟨u :: m, List.cons_ne_nil _ _, a, rfl, rfl⟩

/-! ## Beneath -/

/-- A slash in a stem stands between two segments, or in front of the first. -/
theorem exists_of_stem_eq_append {l : List Text} {a r : Text} (hl : ∀ x ∈ l, IsSegment x)
    (h : stem l = a ++ '/' :: r) : ∃ m b, m ++ b = l ∧ stem b = a := by
  induction l generalizing r with
  | nil => simp [stem] at h
  | cons s l ih =>
    have hs := (hl s List.mem_cons_self).2
    have htail : ∀ x ∈ l, IsSegment x := fun x hx => hl x (List.mem_cons_of_mem _ hx)
    rw [stem] at h
    rcases List.append_eq_append_iff.mp h with ⟨c, rfl, hc⟩ | ⟨c, hstem, hc⟩
    -- The slash stands in the innermost segment, which has none, or in what is outward of it.
    · cases c with
      | nil => exact ⟨[s], l, rfl, (List.append_nil _).symm⟩
      | cons d c =>
        rw [List.cons_append, List.cons.injEq] at hc
        exact absurd (by rw [hc.2]; simp) hs
    · cases c with
      | nil => exact ⟨[s], l, rfl, by rw [hstem, List.append_nil]⟩
      | cons d c =>
        rw [List.cons_append, List.cons.injEq] at hc
        rw [← hc.1] at hstem
        obtain ⟨m, b, rfl, hb⟩ := ih htail hstem
        exact ⟨s :: m, b, rfl, hb⟩

theorem exists_stem_append (s : Text) (m a : List Text) :
    ∃ r, stem (s :: m ++ a) = stem a ++ '/' :: r := by
  induction m generalizing s with
  | nil => exact ⟨s, rfl⟩
  | cons t m ih =>
    obtain ⟨r, hr⟩ := ih t
    exact ⟨r ++ '/' :: s, by rw [List.cons_append, stem, hr]; simp⟩

/-- **A path lies within another if its segments end in the other's.** -/
theorem isWithin_ofSegments_iff {a l : List Text} (ha : ∀ x ∈ a, IsSegment x)
    (hl : ∀ x ∈ l, IsSegment x) : isWithin (ofSegments a) (ofSegments l) = true ↔ a <:+ l := by
  rw [isWithin, relative?, trimEnd_ofSegments ha, trimEnd_ofSegments hl]
  constructor
  · intro h
    split at h
    · next heq => exact ofSegments_injective hl ha heq ▸ List.suffix_rfl
    · split at h
      · next hroot =>
        cases a with
        | nil => exact List.nil_suffix
        | cons s a => exact absurd hroot (ofSegments_cons_ne_root (ha s List.mem_cons_self))
      · next hroot =>
        obtain ⟨r, hr⟩ := Option.isSome_iff_exists.mp h
        have hane : a ≠ [] := by
          rintro rfl
          exact hroot rfl
        rw [Text.isPrefixOf?_eq_some_iff, ofSegments_of_ne_nil hane] at hr
        have hlne : l ≠ [] := by
          rintro rfl
          have hlen := congrArg List.length hr
          have hpos := List.length_pos_iff.mpr (stem_ne_nil hane)
          simp [root] at hlen
          omega
        rw [ofSegments_of_ne_nil hlne, List.append_assoc] at hr
        obtain ⟨m, b, rfl, hb⟩ := exists_of_stem_eq_append hl hr.symm
        have hbl : ∀ x ∈ b, IsSegment x := fun x hx => hl x (List.mem_append_right _ hx)
        have hba : b = a := ofSegments_injective hbl ha (by rw [ofSegments, ofSegments, hb])
        exact ⟨m, by rw [hba]⟩
  · rintro ⟨m, rfl⟩
    split
    · rfl
    · next hne =>
      split
      · rfl
      · next hroot =>
        have hane : a ≠ [] := by
          rintro rfl
          exact hroot rfl
        cases m with
        | nil => exact absurd rfl hne
        | cons s m =>
          obtain ⟨r, hr⟩ := exists_stem_append s m a
          rw [Option.isSome_iff_exists]
          refine ⟨r, Text.isPrefixOf?_eq_some_iff.mpr ?_⟩
          have hwhole : ofSegments (s :: m ++ a) = stem a ++ '/' :: r :=
            (ofSegments_of_ne_nil (List.cons_ne_nil s (m ++ a))).trans hr
          rw [ofSegments_of_ne_nil hane, hwhole, List.append_assoc]
          rfl

end PathIgnore.Path
