import PathIgnore.Path.Basic

/-!
# Ancestors of any text

The ancestors of a path are also asked for where the path is not in normal form: slashes may be doubled
or stand at the end, and the first one may be missing. Even so each ancestor is nothing but slashes, or
the path goes on behind it with a slash (`IsAbove`). A path therefore lies within all its ancestors
(`relative?_ne_none_of_mem_ancestors`).
-/

namespace PathIgnore.Path

/-! ## Slashes at the end -/

theorem dropEndSlashes_of_all {p : Text} (h : p.all isSlash = true) : dropEndSlashes p = [] := by
  have hall : ∀ c ∈ p.reverse, isSlash c = true := fun c hc =>
    List.all_eq_true.mp h c (List.mem_reverse.mp hc)
  rw [dropEndSlashes, Text.dropEndWhile, ← List.append_nil p.reverse,
    List.dropWhile_append_of_pos hall]
  rfl

theorem all_isSlash_of_dropEndSlashes {p : Text} (h : dropEndSlashes p = []) :
    p.all isSlash = true := by
  have hsplit := Text.dropEndWhile_append_takeEndWhile isSlash p
  rw [show Text.dropEndWhile isSlash p = [] from h, List.nil_append] at hsplit
  rw [← hsplit, List.all_eq_true]
  exact fun c hc => Text.of_mem_takeEndWhile hc

theorem dropEndSlashes_dropEndSlashes (p : Text) :
    dropEndSlashes (dropEndSlashes p) = dropEndSlashes p :=
  Text.dropEndWhile_eq_self Text.getLast?_dropEndWhile

theorem orRoot_ne_nil (p : Text) : orRoot p ≠ [] := by
  unfold orRoot
  split
  · simp [root]
  · assumption

theorem trimEnd_ne_nil (p : Text) : trimEnd p ≠ [] := orRoot_ne_nil _

/-- A text that ends in a slash has one behind what is left without the slashes at its end. -/
theorem dropEndSlashes_append_root_isPrefix {p : Text} (h : p.getLast? = some '/') :
    dropEndSlashes p ++ root <+: p := by
  have hsplit := Text.dropEndWhile_append_takeEndWhile isSlash p
  cases hrun : Text.takeEndWhile isSlash p with
  | nil =>
    -- Without slashes at its end the text is what is left, and that ends in none.
    rw [hrun, List.append_nil] at hsplit
    have hlast : isSlash '/' = false := by
      refine Text.getLast?_dropEndWhile (p := isSlash) (t := p) '/' ?_
      rw [hsplit, h]
      rfl
    cases hlast
  | cons c run =>
    have hc : c = '/' := by
      have hslash := Text.of_mem_takeEndWhile (p := isSlash) (t := p) (hrun ▸ List.mem_cons_self)
      simpa [isSlash] using hslash
    refine ⟨run, ?_⟩
    rw [hrun, hc] at hsplit
    rw [List.append_assoc]
    exact hsplit

/-! ## One level up -/

/-- What stands in front is nothing but slashes, or the path goes on behind it with a slash. -/
def IsAbove (a p : Text) : Prop := trimEnd a = root ∨ trimEnd a ++ root <+: trimEnd p

theorem headPart_getLast? {p : Text} (h : headPart p ≠ []) : (headPart p).getLast? = some '/' := by
  have hstop : ∀ c ∈ (headPart p).getLast?, (!isSlash c) = false := Text.getLast?_dropEndWhile
  rw [List.getLast?_eq_some_getLast h] at hstop ⊢
  have hslash := hstop _ rfl
  rw [show (headPart p).getLast h = '/' by simpa [isSlash] using hslash]

/-- **The directory of a path is nothing but slashes, or the path goes on behind it with a slash.** -/
theorem dirName_cases (p : Text) :
    (dirName p).all isSlash = true ∨
      dropEndSlashes (dirName p) = dirName p ∧ dirName p ++ root <+: dropEndSlashes p := by
  by_cases hall : (headPart p).all isSlash = true
  · left
    rw [dirName, orRoot]
    simp only [hall, if_true]
    split
    · rfl
    · exact hall
  · have hleft : dropEndSlashes (headPart p) ≠ [] := fun h => hall (all_isSlash_of_dropEndSlashes h)
    have hhead : headPart p ≠ [] := by
      intro h
      rw [h] at hall
      exact hall rfl
    have hdir : dirName p = dropEndSlashes (headPart p) := by
      rw [dirName]
      simp only [if_neg hall]
      exact if_neg hleft
    rw [hdir]
    exact .inr ⟨dropEndSlashes_dropEndSlashes _,
      (dropEndSlashes_append_root_isPrefix (headPart_getLast? hhead)).trans
        (Text.dropEndWhile_isPrefix _ _)⟩

theorem dirName_isAbove (p : Text) : IsAbove (dirName p) p := by
  by_cases hslashes : (dirName p).all isSlash = true
  · exact .inl (by rw [trimEnd, dropEndSlashes_of_all hslashes]; rfl)
  · obtain ⟨hdrop, hprefix⟩ := (dirName_cases p).resolve_left hslashes
    have hdir : dirName p ≠ [] := by
      intro h
      rw [h] at hslashes
      exact hslashes rfl
    have hpath : dropEndSlashes p ≠ [] := by
      intro h
      rw [h, List.prefix_nil] at hprefix
      simp [root] at hprefix
    right
    rw [trimEnd, hdrop, orRoot, if_neg hdir, trimEnd, orRoot, if_neg hpath]
    exact hprefix

/-! ## All the way up -/

theorem IsAbove.trans {a b p : Text} (hab : IsAbove a b) (hbp : IsAbove b p) : IsAbove a p := by
  rcases hab with hroot | hab
  · exact .inl hroot
  · rcases hbp with hroot | hbp
    · -- Nothing but the empty text goes on to the root with a slash.
      rw [hroot] at hab
      have hlength := hab.length_le
      rw [List.length_append, root] at hlength
      simp only [List.length_singleton] at hlength
      exact absurd (List.eq_nil_of_length_eq_zero (by omega)) (trimEnd_ne_nil a)
    · exact .inr (hab.trans ((List.prefix_append _ _).trans hbp))

theorem isAbove_of_mem_ancestorsFrom {a p : Text} (h : a ∈ ancestorsFrom p) : IsAbove a p := by
  fun_induction ancestorsFrom p with
  | case1 => cases h
  | case2 p hp ih =>
    rcases List.mem_cons.mp h with rfl | h
    · exact dirName_isAbove p
    · exact (ih h).trans (dirName_isAbove p)

theorem trimEnd_trimEnd (p : Text) : trimEnd (trimEnd p) = trimEnd p := by
  by_cases hp : dropEndSlashes p = []
  · rw [trimEnd.eq_1 p, hp]
    rfl
  · rw [trimEnd.eq_1 p, orRoot, if_neg hp, trimEnd, dropEndSlashes_dropEndSlashes, orRoot, if_neg hp]

/-- **Every ancestor of a path, in normal form or not, stands above it.** -/
theorem isAbove_of_mem_ancestors {a p : Text} (h : a ∈ ancestors p) : IsAbove a p := by
  have habove := isAbove_of_mem_ancestorsFrom h
  rw [IsAbove, trimEnd_trimEnd] at habove
  exact habove

theorem relative?_ne_none_of_isAbove {a p : Text} (h : IsAbove a p) : relative? a p ≠ none := by
  rw [relative?]
  by_cases heq : trimEnd p = trimEnd a
  · rw [if_pos heq]
    simp
  · rw [if_neg heq]
    by_cases hroot : trimEnd a = root
    · rw [if_pos hroot]
      simp
    · rw [if_neg hroot]
      obtain ⟨rest, hrest⟩ := h.resolve_left hroot
      rw [Text.isPrefixOf?_eq_some_iff.mpr hrest]
      simp

/-- **A path lies within all its ancestors.** -/
theorem relative?_ne_none_of_mem_ancestors {a p : Text} (h : a ∈ ancestors p) :
    relative? a p ≠ none :=
  relative?_ne_none_of_isAbove (isAbove_of_mem_ancestors h)

/-! ## What ancestors are written with -/

theorem mem_of_mem_orRoot {c : Char} {p : Text} (h : c ∈ orRoot p) : c ∈ p ∨ c = '/' := by
  unfold orRoot at h
  split at h
  · exact .inr (List.mem_singleton.mp h)
  · exact .inl h

/-- The directory of a path is written with its characters. -/
theorem mem_of_mem_dirName {c : Char} {p : Text} (h : c ∈ dirName p) : c ∈ p ∨ c = '/' := by
  have hhead : ∀ {c}, c ∈ headPart p → c ∈ p := fun h =>
    (Text.dropEndWhile_isPrefix _ _).subset ((Text.dropEndWhile_isPrefix _ _).subset h)
  refine (mem_of_mem_orRoot h).imp_left fun h => ?_
  split at h
  · exact hhead h
  · exact hhead ((Text.dropEndWhile_isPrefix _ _).subset h)

theorem mem_of_mem_join {c : Char} {directory name : Text} (h : c ∈ join directory name) :
    c ∈ directory ∨ c ∈ name ∨ c = '/' := by
  unfold join at h
  split at h
  · exact (List.mem_append.mp h).imp_right .inl
  · rcases List.mem_append.mp h with h | h
    · exact .inl h
    · exact .inr (List.mem_cons.mp h).symm

theorem mem_dirName_of_mem_ancestorsFrom {a p : Text} {c : Char} (ha : a ∈ ancestorsFrom p)
    (hc : c ∈ a) : c ∈ dirName p ∨ c = '/' := by
  fun_induction ancestorsFrom p with
  | case1 => cases ha
  | case2 p hp ih =>
    rcases List.mem_cons.mp ha with rfl | ha
    · exact .inl hc
    · rcases ih ha with h | h
      · exact mem_of_mem_dirName h
      · exact .inr h

theorem dropEndSlashes_trimEnd (p : Text) : dropEndSlashes (trimEnd p) = dropEndSlashes p := by
  by_cases hp : dropEndSlashes p = []
  · rw [trimEnd, hp]
    rfl
  · rw [trimEnd, orRoot, if_neg hp, dropEndSlashes_dropEndSlashes]

theorem dirName_trimEnd (p : Text) : dirName (trimEnd p) = dirName p := by
  unfold dirName headPart
  rw [dropEndSlashes_trimEnd]

/-- **The ancestors of a path are written with the characters of its directory.** -/
theorem mem_dirName_of_mem_ancestors {a p : Text} {c : Char} (ha : a ∈ ancestors p) (hc : c ∈ a) :
    c ∈ dirName p ∨ c = '/' :=
  dirName_trimEnd p ▸ mem_dirName_of_mem_ancestorsFrom ha hc

end PathIgnore.Path
