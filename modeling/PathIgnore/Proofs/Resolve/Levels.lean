import Mathlib.Data.List.Nodup
import PathIgnore.Proofs.Resolve.Boundary
import PathIgnore.Proofs.Settings.FileNames

/-!
# The levels of a path

Level `i` of a path is what stands `i` directories above it, the path itself at level zero. On the path
of a list of segments it is the path of the list without the first `i`.
-/

namespace PathIgnore

namespace Path

variable {l : List Text}

theorem above_ofSegments (hl : ∀ x ∈ l, IsSegment x) (i : Nat) :
    above (ofSegments l) i = ofSegments (l.drop i) := by
  induction i with
  | zero => rfl
  | succ i ih =>
    rw [above, Function.iterate_succ_apply', ← above, ih, ← List.tail_drop]
    cases hdrop : l.drop i with
    | nil => rfl
    | cons s rest =>
      have hrest : ∀ x ∈ s :: rest, IsSegment x := fun x hx =>
        hl x (List.mem_of_mem_drop (hdrop ▸ hx))
      exact dirName_ofSegments_cons hrest

theorem ancestors_ofSegments (hl : ∀ x ∈ l, IsSegment x) :
    ancestors (ofSegments l) = (List.range l.length).map fun i => ofSegments (l.drop (i + 1)) := by
  induction l with
  | nil => exact ancestors_ofSegments_nil
  | cons s l ih =>
    rw [ancestors_ofSegments_cons hl, ih fun x hx => hl x (List.mem_cons_of_mem _ hx),
      List.length_cons, List.range_succ_eq_map, List.map_cons, List.map_map]
    rfl

/-- Different levels, up to the root, are different paths. -/
theorem eq_of_ofSegments_drop (hl : ∀ x ∈ l, IsSegment x) {i j : Nat} (hi : i ≤ l.length)
    (hj : j ≤ l.length) (h : ofSegments (l.drop i) = ofSegments (l.drop j)) : i = j := by
  have hlists := ofSegments_injective (fun x hx => hl x (List.mem_of_mem_drop hx))
    (fun x hx => hl x (List.mem_of_mem_drop hx)) h
  have hlength := congrArg List.length hlists
  rw [List.length_drop, List.length_drop] at hlength
  omega

theorem mem_ancestors_ofSegments_iff_level (hl : ∀ x ∈ l, IsSegment x) {p : Text} :
    p ∈ ancestors (ofSegments l) ↔ ∃ i < l.length, ofSegments (l.drop (i + 1)) = p := by
  rw [ancestors_ofSegments hl]
  simp

theorem idxOf_ancestors_ofSegments (hl : ∀ x ∈ l, IsSegment x) {i : Nat} (hi : i < l.length) :
    (ancestors (ofSegments l)).idxOf (ofSegments (l.drop (i + 1))) = i := by
  have hmem := (mem_ancestors_ofSegments_iff_level hl).mpr ⟨i, hi, rfl⟩
  have hlt := List.idxOf_lt_length_of_mem hmem
  have hget := List.getElem_idxOf hlt
  generalize (ancestors (ofSegments l)).idxOf (ofSegments (l.drop (i + 1))) = j at hlt hget
  rw [ancestors_ofSegments hl, List.length_map, List.length_range] at hlt
  simp only [ancestors_ofSegments hl, List.getElem_map, List.getElem_range] at hget
  have hsucc := eq_of_ofSegments_drop hl hlt hi hget
  omega

end Path

/-- The list goes up from the path, directory by directory, and ends where it first meets `last`. -/
def Chain.ClimbsTo (path last : Text) (chain : List Text) : Prop :=
  ∃ k, chain = (List.range (k + 1)).map (Path.above path) ∧ Path.above path k = last ∧
    ∀ j < k, Path.above path j ≠ last

end PathIgnore
