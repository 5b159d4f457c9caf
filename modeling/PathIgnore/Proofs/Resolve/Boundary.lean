import PathIgnore.Proofs.Path.Climb
import PathIgnore.Proofs.Path.Normal
import PathIgnore.Resolve.Plan

/-!
# Chains of resolved paths

For a path in normal form the boundary root that is looked for is one of its ancestors, so there is
always a chain (`between_some`). Above a directory that lies inside it, the chain is the chain of that
directory (`exists_through_ancestorsFrom`).
-/

namespace PathIgnore

namespace Chain

/-! ## Up to the root -/

theorem through_eq_take (stop : Text) : ∀ l : List Text, through stop l = l.take (l.idxOf stop + 1)
  | [] => rfl
  | p :: rest => by
    rw [through, List.idxOf_cons]
    by_cases hp : p = stop
    · rw [if_pos hp, hp, beq_self_eq_true, cond_true]
      rfl
    · rw [if_neg hp, beq_eq_false_iff_ne.mpr hp, cond_false, through_eq_take stop rest]
      rfl

theorem through_ne_nil {stop p : Text} {l : List Text} (h : p ∈ l) : through stop l ≠ [] := by
  obtain ⟨q, rest, rfl⟩ := List.exists_cons_of_ne_nil (List.ne_nil_of_mem h)
  rw [through]
  split <;> exact List.cons_ne_nil _ _

theorem getLast?_through {stop : Text} : ∀ {l : List Text}, stop ∈ l →
    (through stop l).getLast? = some stop
  | [], h => absurd h List.not_mem_nil
  | p :: rest, h => by
    rw [through]
    by_cases hp : p = stop
    · rw [if_pos hp, hp]
      rfl
    · have hrest := getLast?_through ((List.mem_cons.mp h).resolve_left (Ne.symm hp))
      rw [if_neg hp, List.getLast?_cons, hrest]
      rfl

/-- **There is a chain between a path in normal form and each of its ancestors.** -/
theorem between_some {l : List Text} (hl : ∀ s ∈ l, Path.IsSegment s) {root : Text}
    (h : root ∈ Path.ancestors (Path.ofSegments l)) :
    between (Path.ofSegments l) (some root) =
      .ok (Path.ofSegments l :: through root (Path.ancestors (Path.ofSegments l))) := by
  have hwithin : Path.isWithin root (Path.ofSegments l) = true := by
    obtain ⟨m, -, a, rfl, rfl⟩ := (Path.mem_ancestors_ofSegments_iff hl).mp h
    refine (Path.isWithin_ofSegments_iff ?_ hl).mpr ⟨m, rfl⟩
    exact fun x hx => hl x (List.mem_append_right m hx)
  have hrelative : Path.relative? root (Path.ofSegments l) ≠ none := by
    intro hnone
    rw [Path.isWithin, hnone] at hwithin
    cases hwithin
  rw [between, if_neg hrelative]
  dsimp only
  rw [if_pos (by rw [last, getLast?_through h]; rfl)]

/-- The chain of a path: up to its root, or to its directory where there is no root. -/
def upTo (path : Text) : Option Text → List Text
  | none => [path, Path.dirName path]
  | some root => path :: through root (Path.ancestors path)

theorem between_eq_upTo {l : List Text} (hl : ∀ s ∈ l, Path.IsSegment s) {root : Option Text}
    (h : ∀ r ∈ root, r ∈ Path.ancestors (Path.ofSegments l)) :
    between (Path.ofSegments l) root = .ok (upTo (Path.ofSegments l) root) := by
  cases root with
  | none => rfl
  | some r => exact between_some hl (h r rfl)

/-! ## Shared parts -/

/-- What the chain passes before the root lies beneath the root. -/
theorem mem_ancestorsFrom_of_mem_dropLast {root p : Text} (q : Text) (hroot : root ∈ Path.ancestorsFrom q)
    (hp : p ∈ (through root (Path.ancestorsFrom q)).dropLast) : root ∈ Path.ancestorsFrom p := by
  fun_induction Path.ancestorsFrom q with
  | case1 => cases hroot
  | case2 q hq ih =>
    rw [through] at hp
    by_cases hhere : Path.dirName q = root
    · rw [if_pos hhere] at hp
      cases hp
    · have hrest := (List.mem_cons.mp hroot).resolve_left (Ne.symm hhere)
      rw [if_neg hhere, List.dropLast_cons_of_ne_nil (through_ne_nil hrest)] at hp
      rcases List.mem_cons.mp hp with rfl | hp
      · exact hrest
      · exact ih hrest hp

/-- **Above a directory that lies beneath the root, the chain is the chain of the directory**, and the
directory is met once. -/
theorem exists_through_ancestorsFrom {root d : Text} (q : Text) (hd : d ∈ Path.ancestorsFrom q)
    (hroot : root ∈ Path.ancestorsFrom d) :
    ∃ inner, d ∉ inner ∧ through root (Path.ancestorsFrom q) =
      inner ++ d :: through root (Path.ancestorsFrom d) := by
  fun_induction Path.ancestorsFrom q with
  | case1 => cases hd
  | case2 q hq ih =>
    -- The ranks of root, `d` and the directories inward of it grow, so none of them are the same.
    have hlow := Path.rank_lt_of_mem_ancestorsFrom hroot
    rw [through]
    rcases List.mem_cons.mp hd with rfl | hd
    · have hne : Path.dirName q ≠ root := by
        rintro rfl
        exact Nat.lt_irrefl _ hlow
      exact ⟨[], List.not_mem_nil, by rw [if_neg hne]; rfl⟩
    · have hhigh := Path.rank_lt_of_mem_ancestorsFrom hd
      have hne : Path.dirName q ≠ root := by
        rintro rfl
        exact Nat.lt_asymm hlow hhigh
      have hned : d ≠ Path.dirName q := by
        rintro rfl
        exact Nat.lt_irrefl _ hhigh
      obtain ⟨inner, hinner, hthrough⟩ := ih hd
      refine ⟨Path.dirName q :: inner, ?_, by rw [if_neg hne, hthrough]; rfl⟩
      rw [List.mem_cons, not_or]
      exact ⟨hned, hinner⟩

end Chain

end PathIgnore
