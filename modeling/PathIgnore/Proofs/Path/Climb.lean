import Mathlib.Data.List.Chain
import Mathlib.Logic.Function.Iterate
import PathIgnore.Proofs.Path.Ancestors

/-!
# Going up ends at the root

Going up from a path, to its directory, the directory of that, and so on, comes to the root and stops
there, whatever the path is written like: relative, with doubled slashes or slashes at its end, or with
nothing but slashes (`ancestors_climb`).

Neither the length nor the number of slashes gets smaller with every turn: the directory of a one-letter
name is the root, and that of `//a` is `//`. But a directory other than the root has fewer slashes than
the path, or nothing but slashes and the root above it. So there is one turn more than the path has
slashes at most (`length_ancestorsFrom_le`).
-/

namespace PathIgnore.Path

/-- The directory so many levels above a path. -/
def above (p : Text) (levels : Nat) : Text := dirName^[levels] p

/-! ## Turn by turn -/

/-- Going up comes nearer to the root. -/
theorem rank_lt_of_mem_ancestorsFrom {p q : Text} (h : p ∈ ancestorsFrom q) : rank p < rank q := by
  fun_induction ancestorsFrom q with
  | case1 => cases h
  | case2 q hq ih =>
    rcases List.mem_cons.mp h with rfl | h
    · exact rank_dirName_lt hq
    · exact Nat.lt_trans (ih h) (rank_dirName_lt hq)

/-- The first ancestors are what going up level by level comes to. -/
theorem take_ancestorsFrom (p : Text) (k : Nat) (hk : k ≤ (ancestorsFrom p).length) :
    (ancestorsFrom p).take k = (List.range k).map fun i => above p (i + 1) := by
  fun_induction ancestorsFrom p generalizing k with
  | case1 =>
    obtain rfl := Nat.le_zero.mp hk
    rfl
  | case2 p hp ih =>
    cases k with
    | zero => rfl
    | succ k =>
      rw [List.take_succ_cons, ih k (Nat.le_of_succ_le_succ hk), List.range_succ_eq_map,
        List.map_cons, List.map_map]
      rfl

/-- After as many turns as there are ancestors, going up has come to the root for the first time. -/
theorem above_eq_root_iff (p : Text) (k : Nat) (hk : k ≤ (ancestorsFrom p).length) :
    above p k = root ↔ k = (ancestorsFrom p).length := by
  fun_induction ancestorsFrom p generalizing k with
  | case1 =>
    obtain rfl := Nat.le_zero.mp hk
    exact iff_of_true rfl rfl
  | case2 p hp ih =>
    cases k with
    | zero => exact iff_of_false hp (Nat.succ_ne_zero _).symm
    | succ k =>
      rw [List.length_cons, Nat.succ_inj, ← ih k (Nat.le_of_succ_le_succ hk)]
      rfl

theorem isChain_ancestorsFrom (p : Text) :
    (p :: ancestorsFrom p).IsChain fun inner outer => outer = dirName inner := by
  fun_induction ancestorsFrom p with
  | case1 => exact .singleton _
  | case2 p hp ih => exact .cons_cons rfl ih

theorem nodup_ancestorsFrom (p : Text) : (ancestorsFrom p).Nodup := by
  fun_induction ancestorsFrom p with
  | case1 => exact .nil
  | case2 p hp ih =>
    exact List.nodup_cons.mpr ⟨fun h => Nat.lt_irrefl _ (rank_lt_of_mem_ancestorsFrom h), ih⟩

theorem getLast?_ancestorsFrom (p : Text) :
    (ancestorsFrom p).getLast? = if p = root then none else some root := by
  fun_induction ancestorsFrom p with
  | case1 => rfl
  | case2 p hp ih =>
    rw [if_neg hp, List.getLast?_cons, ih]
    split
    · next hdir => rw [hdir]; rfl
    · rfl

/-! ## How many turns -/

/-- A directory other than the root stands at the front of the path. -/
theorem dirName_isPrefix {p : Text} (h : dirName p ≠ root) : dirName p <+: p := by
  have hhead : headPart p <+: p :=
    (Text.dropEndWhile_isPrefix _ _).trans (Text.dropEndWhile_isPrefix _ _)
  obtain ⟨d, hd, hdir⟩ : ∃ d, d <+: p ∧ dirName p = orRoot d := by
    refine ⟨_, ?_, rfl⟩
    split
    · exact hhead
    · exact (Text.dropEndWhile_isPrefix _ _).trans hhead
  rw [hdir, orRoot] at h ⊢
  split at h
  · exact absurd rfl h
  · next hne =>
    rw [if_neg hne]
    exact hd

theorem dirName_of_all {p : Text} (h : p.all isSlash = true) : dirName p = root := by
  rw [dirName, headPart, dropEndSlashes_of_all h]
  rfl

theorem dirName_ne_nil (p : Text) : dirName p ≠ [] := orRoot_ne_nil _

/-- **Going up takes one turn more than the path has slashes at most**, and one if it has nothing else. -/
theorem length_ancestorsFrom_le (p : Text) :
    (ancestorsFrom p).length ≤ if p.all isSlash then 1 else p.count '/' + 1 := by
  fun_induction ancestorsFrom p with
  | case1 => exact Nat.zero_le _
  | case2 p hp ih =>
    rw [List.length_cons]
    by_cases hroot : dirName p = root
    · rw [hroot, ancestorsFrom_root]
      split <;> simp
    · have hall : ¬ p.all isSlash = true := fun h => hroot (dirName_of_all h)
      rw [if_neg hall]
      rcases dirName_cases p with hslashes | ⟨-, hfront⟩
      · -- The directory is slashes, one of them at least, and the root comes next.
        rw [if_pos hslashes] at ih
        obtain ⟨c, hc⟩ := List.exists_mem_of_ne_nil _ (dirName_ne_nil p)
        have hslash : c = '/' := by simpa [isSlash] using List.all_eq_true.mp hslashes c hc
        have hcount : 0 < p.count '/' :=
          List.count_pos_iff.mpr ((dirName_isPrefix hroot).subset (hslash ▸ hc))
        omega
      · -- The slash behind the directory is one that the directory has not.
        have hcount := (hfront.trans (Text.dropEndWhile_isPrefix _ _)).sublist.count_le '/'
        rw [List.count_append, root, List.count_singleton_self] at hcount
        have hle : (ancestorsFrom (dirName p)).length ≤ (dirName p).count '/' + 1 := by
          split at ih <;> omega
        omega

/-! ## The way up as a whole -/

theorem trimEnd_eq_root_iff {p : Text} : trimEnd p = root ↔ ∀ c ∈ p, c = '/' := by
  have hall : p.all isSlash = true ↔ ∀ c ∈ p, c = '/' := by simp [isSlash]
  rw [← hall, trimEnd, orRoot]
  constructor
  · intro h
    split at h
    · next hnil => exact all_isSlash_of_dropEndSlashes hnil
    · -- What is left without the slashes at the end does not end in one.
      have hlast : isSlash '/' = false :=
        Text.getLast?_dropEndWhile (p := isSlash) (t := p) '/' (by
          rw [show Text.dropEndWhile isSlash p = root from h]; rfl)
      cases hlast
  · intro h
    rw [dropEndSlashes_of_all h, if_pos rfl]

theorem ancestors_eq_nil_iff {p : Text} : ancestors p = [] ↔ ∀ c ∈ p, c = '/' := by
  rw [← trimEnd_eq_root_iff, ancestors]
  constructor
  · intro h
    by_contra hne
    rw [ancestorsFrom_of_ne hne] at h
    cases h
  · intro h
    rw [h, ancestorsFrom_root]

theorem length_ancestors_le (p : Text) : (ancestors p).length ≤ p.count '/' + 1 := by
  by_cases hdrop : dropEndSlashes p = []
  · have hroot : trimEnd p = root := by rw [trimEnd, hdrop]; rfl
    rw [ancestors, hroot, ancestorsFrom_root]
    exact Nat.zero_le _
  · have htrim : trimEnd p = dropEndSlashes p := if_neg hdrop
    have hcount := (Text.dropEndWhile_isPrefix isSlash p).sublist.count_le '/'
    have hle := length_ancestorsFrom_le (trimEnd p)
    rw [htrim] at hle
    rw [ancestors, htrim]
    split at hle
    · omega
    · exact Nat.le_trans hle (Nat.succ_le_succ hcount)

theorem isChain_ancestors (p : Text) :
    (dropEndSlashes p :: ancestors p).IsChain fun inner outer => outer = dirName inner := by
  have hchain := isChain_ancestorsFrom (trimEnd p)
  rw [List.isChain_cons] at hchain ⊢
  refine ⟨fun outer houter => ?_, hchain.2⟩
  rw [hchain.1 outer houter, dirName_trimEnd, dirName, dirName, headPart, headPart,
    dropEndSlashes_dropEndSlashes]

/--
**Going up from any path ends.** Turn by turn it comes to the directory of where it is, until that is the
root, and it takes one turn more than the path has slashes at most. Only from slashes, or from nothing,
there is no turn. Otherwise the root is met, last; nothing is met twice; and each is the directory of the
one before, the first that of the path without the slashes at its end.
-/
theorem ancestors_climb (p : Text) :
    (∃ turns ≤ p.count '/' + 1, above (trimEnd p) turns = root ∧
      (∀ k < turns, above (trimEnd p) k ≠ root) ∧
      ancestors p = (List.range turns).map fun k => above (trimEnd p) (k + 1)) ∧
    (ancestors p = [] ↔ ∀ c ∈ p, c = '/') ∧
    (ancestors p).getLast? = (if ancestors p = [] then none else some root) ∧
    (ancestors p).Nodup ∧
    (dropEndSlashes p :: ancestors p).IsChain fun inner outer => outer = dirName inner := by
  have hroot := above_eq_root_iff (trimEnd p)
  have htake := take_ancestorsFrom (trimEnd p) _ (Nat.le_refl _)
  rw [List.take_length] at htake
  have hnil : ancestors p = [] ↔ trimEnd p = root := by
    rw [ancestors_eq_nil_iff, trimEnd_eq_root_iff]
  refine ⟨⟨(ancestors p).length, length_ancestors_le p, (hroot _ (Nat.le_refl _)).mpr rfl, ?_, htake⟩,
    ancestors_eq_nil_iff, ?_, nodup_ancestorsFrom _, isChain_ancestors p⟩
  · intro k hk h
    exact Nat.ne_of_lt hk ((hroot k (Nat.le_of_lt hk)).mp h)
  · rw [if_congr hnil rfl rfl]
    exact getLast?_ancestorsFrom (trimEnd p)

/-- The bound is reached where every slash separates two names. -/
example : (ancestors "a/b/c".toList).length = "a/b/c".toList.count '/' + 1 := by decide +kernel

end PathIgnore.Path
