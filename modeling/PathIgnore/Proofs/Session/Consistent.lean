import PathIgnore.Proofs.Path.Canonical
import PathIgnore.Proofs.Resolve.Effect
import PathIgnore.Proofs.Resolve.Levels
import PathIgnore.Session.Basic

/-!
# Boundary roots that do not go with a path

A boundary root that is looked for always goes with its path, in normal form or not, because a path lies
within all its ancestors (`exists_between_findBoundaryRoot`). Only a root that is given from outside can
miss the path: there is a chain to the ancestors of a path, and from the root of the tree to itself
(`exists_between_iff`). A check under any other root answers that it is inconsistent and changes nothing
(`Session.step_check_of_error`).
-/

namespace PathIgnore

namespace Chain

variable {path root : Text}

/-! ## Any path -/

theorem between_of_mem_ancestors (h : root ∈ Path.ancestors path) :
    between path (some root) = .ok (path :: through root (Path.ancestors path)) := by
  have hlast : last path (through root (Path.ancestors path)) = root := by
    rw [last, getLast?_through h]
    rfl
  rw [between, if_neg (Path.relative?_ne_none_of_mem_ancestors h)]
  dsimp only
  rw [if_pos hlast]

/-- **There is a chain up to every boundary root that is looked for.** -/
theorem exists_between_findBoundaryRoot {σ : Type} (d : Disk σ) (marker path : Text) (w : σ) :
    ∃ chain, between path (findBoundaryRoot d marker path w).1 = .ok chain := by
  cases hroot : (findBoundaryRoot d marker path w).1 with
  | none => exact ⟨_, rfl⟩
  | some root => exact ⟨_, between_of_mem_ancestors (mem_of_firstWithMarker hroot)⟩

theorem last_through_eq_iff (h : root ∉ Path.ancestors path) :
    last path (through root (Path.ancestors path)) = root ↔
      Path.ancestors path = [] ∧ path = root := by
  have hall : through root (Path.ancestors path) = Path.ancestors path := by
    rw [through_eq_take, List.idxOf_eq_length h, List.take_of_length_le (Nat.le_succ _)]
  rw [hall, last]
  cases hend : (Path.ancestors path).getLast? with
  | none =>
    rw [List.getLast?_eq_none_iff] at hend
    simp [hend]
  | some p =>
    have hp : p ∈ Path.ancestors path := List.mem_of_getLast? hend
    constructor
    · rintro rfl
      exact absurd hp h
    · rintro ⟨hnil, -⟩
      rw [hnil] at hp
      cases hp

/-- **There is a chain to the ancestors of a path, and where there are none to the path itself.** -/
theorem exists_between_iff :
    (∃ chain, between path (some root) = .ok chain) ↔
      root ∈ Path.ancestors path ∨ Path.ancestors path = [] ∧ path = root := by
  by_cases hmem : root ∈ Path.ancestors path
  · exact ⟨fun _ => .inl hmem, fun _ => ⟨_, between_of_mem_ancestors hmem⟩⟩
  · rw [← last_through_eq_iff hmem]
    constructor
    · rintro ⟨chain, hchain⟩
      rw [between] at hchain
      dsimp only at hchain
      split at hchain
      · cases hchain
      · split at hchain
        · next hlast => exact .inr hlast
        · cases hchain
    · rintro (h | hlast)
      · exact absurd h hmem
      · have hself : path = root := ((last_through_eq_iff hmem).mp hlast).2
        have hwithin : Path.relative? root path ≠ none := by
          rw [hself, Path.relative?]
          simp
        rw [between, if_neg hwithin]
        dsimp only
        rw [if_pos hlast]
        exact ⟨_, rfl⟩

theorem eq_of_between_eq_error {e : ChainError} (h : between path (some root) = .error e) :
    e.path = path ∧ e.boundaryRoot = root := by
  rw [between] at h
  dsimp only at h
  split at h
  · cases h
    exact ⟨rfl, rfl⟩
  · split at h
    · cases h
    · cases h
      exact ⟨rfl, rfl⟩

/-! ## Paths in normal form -/

variable {l : List Text}

theorem ancestors_ofSegments_eq_nil_iff (hl : ∀ x ∈ l, Path.IsSegment x) :
    Path.ancestors (Path.ofSegments l) = [] ↔ Path.ofSegments l = Path.root := by
  rw [Path.ancestors_ofSegments hl, List.map_eq_nil_iff, List.range_eq_nil, List.length_eq_zero_iff]
  constructor
  · rintro rfl
    rfl
  · intro hroot
    exact Path.ofSegments_injective hl (by simp) hroot

/-- **A chain between a path in normal form and a root goes up level by level to the root.** -/
theorem climbsTo_of_between (hl : ∀ x ∈ l, Path.IsSegment x) {chain : List Text}
    (h : between (Path.ofSegments l) (some root) = .ok chain) :
    ClimbsTo (Path.ofSegments l) root chain := by
  rcases exists_between_iff.mp ⟨chain, h⟩ with hmem | ⟨hnil, rfl⟩
  · rw [between_of_mem_ancestors hmem] at h
    cases h
    obtain ⟨i, hi, rfl⟩ := (Path.mem_ancestors_ofSegments_iff_level hl).mp hmem
    refine ⟨i + 1, ?_, Path.above_ofSegments hl (i + 1), ?_⟩
    · have hlevels : ∀ j, Path.ofSegments (l.drop (j + 1)) = Path.above (Path.ofSegments l) (j + 1) :=
        fun j => (Path.above_ofSegments hl (j + 1)).symm
      rw [through_eq_take, Path.idxOf_ancestors_ofSegments hl hi, Path.ancestors_ofSegments hl,
        ← List.map_take, List.take_range, Nat.min_eq_left hi, List.range_succ_eq_map (n := i + 1),
        List.map_cons, List.map_map]
      exact congrArg _ (List.map_congr_left fun j _ => hlevels j)
    · intro j hj heq
      rw [Path.above_ofSegments hl] at heq
      have hlevel := Path.eq_of_ofSegments_drop hl (by omega) hi heq
      omega
  · have hlast : last (Path.ofSegments l) (through (Path.ofSegments l) []) = Path.ofSegments l := rfl
    rw [between, hnil] at h
    dsimp only at h
    rw [if_pos hlast] at h
    split at h
    · cases h
    · cases h
      exact ⟨0, rfl, rfl, fun j hj => absurd hj (Nat.not_lt_zero j)⟩

end Chain

/-! ## Answers -/

namespace Resolve

variable {σ : Type} {d : Disk σ} {s : Settings} {path : Text} {c : Cache} {w : σ}

/-- Where there is a chain, resolving does not come to an inconsistency. -/
theorem reason_ne_inconsistent_of_within {root : Option Text} {chain : List Text} {r : Resolution}
    (hchain : Chain.between path root = .ok chain)
    (h : (within d s path root c w).answer = .ok r) : r.verdict.reason ≠ Reason.inconsistent.word := by
  rw [within] at h
  dsimp only at h
  split at h
  · cases h
    show Reason.outsideBoundary.word ≠ Reason.inconsistent.word
    decide
  · rw [hchain] at h
    dsimp only [Traced.after, Traced.mapAnswer] at h
    cases hscan : (scan d s.toDiagnostics (Plan.ofChain s.fileNames.texts chain) c w).answer with
    | error fault =>
      rw [hscan] at h
      cases h
    | ok found =>
      rw [hscan] at h
      cases h
      cases found with
      | none =>
        show Reason.noMatch.word ≠ Reason.inconsistent.word
        decide
      | some rule =>
        show Reason.rule.word ≠ Reason.inconsistent.word
        decide

theorem reason_ne_inconsistent {r : Resolution} (h : (resolve d s path c w).answer = .ok r) :
    r.verdict.reason ≠ Reason.inconsistent.word := by
  obtain ⟨chain, hchain⟩ := Chain.exists_between_findBoundaryRoot d s.boundaryMarker path w
  exact reason_ne_inconsistent_of_within hchain h

end Resolve

namespace Session

variable {σ : Type} {d : Disk σ} {around : Surroundings} {s : Session σ} {target : Text}

theorem reason_ne_inconsistent_of_step {v : Verdict}
    (h : (step d around (.check target none) s).answer = .verdict v) :
    v.reason ≠ Reason.inconsistent.word := by
  change answerOf (fun r => .verdict r.verdict) (s.checked d around target none s.cache).answer =
    .verdict v at h
  rw [checked, Resolve.answer_announce] at h
  cases hanswer : (s.resolution d around target none s.cache).answer with
  | error fault =>
    rw [hanswer] at h
    cases h
  | ok r =>
    rw [hanswer] at h
    cases h
    cases hnormal : Path.normalize around target with
    | error fault =>
      rw [resolution_of_error d s hnormal] at hanswer
      cases hanswer
    | ok path =>
      rw [resolution_of_ok d s hnormal] at hanswer
      exact Resolve.reason_ne_inconsistent hanswer

theorem withCache_cache (s : Session σ) : s.withCache s.cache = s := by
  obtain ⟨disk, settings, choice, own, shared⟩ := s
  cases choice <;> rfl

/-- **A check under a root without a chain answers so and leaves the session as it is.** -/
theorem step_check_of_error {path root : Text} {e : ChainError}
    (hnormal : Path.normalize around target = .ok path)
    (h : Chain.between path (some root) = .error e) :
    (step d around (.check target (some (some root))) s).answer =
        .verdict { path, reason := Reason.inconsistent.word, boundaryRoot := some root } ∧
      (step d around (.check target (some (some root))) s).session = s := by
  have hresolution : s.resolution d around target (some (some root)) s.cache =
      Resolve.within d s.settings path (some root) s.cache s.disk := resolution_of_ok d s hnormal _ _
  rw [Resolve.within, if_neg (by simp), h] at hresolution
  have hstep : step d around (.check target (some (some root))) s =
      s.respond (fun r => .verdict r.verdict) (Resolve.announce s.settings.toDiagnostics
        (s.resolution d around target (some (some root)) s.cache)) := rfl
  rw [hstep, hresolution, Resolve.announce, respond]
  dsimp only
  rw [withCache_cache]
  exact ⟨by simp only [answerOf, Resolution.verdict], rfl⟩

/-- **Boundary roots and paths go together unless a root is given from outside.** There is always a chain
to the root that is looked for, so no check answers that it is inconsistent. For a path in normal form
there is a chain to its ancestors, and from the root of the tree to itself; the chain climbs to the root
that is given. Under any other root a check answers that it is inconsistent, and the session stays. -/
theorem consistent_unless_overridden (around : Surroundings) :
    (∀ (σ : Type) (d : Disk σ) (marker path : Text) (w : σ),
      ∃ chain, Chain.between path (Chain.findBoundaryRoot d marker path w).1 = .ok chain) ∧
    (∀ (σ : Type) (d : Disk σ) (s : Session σ) (target : Text) (v : Verdict),
      (step d around (.check target none) s).answer = .verdict v →
        v.reason ≠ Reason.inconsistent.word) ∧
    ∀ target path root : Text, Path.normalize around target = .ok path →
      ((∃ chain, Chain.between path (some root) = .ok chain) ↔
        root ∈ Path.ancestors path ∨ path = Path.root ∧ root = Path.root) ∧
      (∀ chain, Chain.between path (some root) = .ok chain → Chain.ClimbsTo path root chain) ∧
      ∀ e, Chain.between path (some root) = .error e →
        (e.path = path ∧ e.boundaryRoot = root) ∧
        ∀ (σ : Type) (d : Disk σ) (s : Session σ),
          (step d around (.check target (some (some root))) s).answer =
              .verdict { path, ignored := false, reason := Reason.inconsistent.word,
                         boundaryRoot := some root } ∧
            (step d around (.check target (some (some root))) s).session = s := by
  refine ⟨fun _ d => Chain.exists_between_findBoundaryRoot d, fun _ _ _ _ _ =>
    reason_ne_inconsistent_of_step, fun target path root hnormal => ?_⟩
  obtain ⟨l, hl, rfl⟩ := (Path.isCanonical_of_normalize hnormal).exists_segments
  refine ⟨?_, fun chain => Chain.climbsTo_of_between hl,
    fun e he => ⟨Chain.eq_of_between_eq_error he, fun _ _ _ => step_check_of_error hnormal he⟩⟩
  rw [Chain.exists_between_iff, Chain.ancestors_ofSegments_eq_nil_iff hl]
  refine or_congr_right (and_congr_right fun hroot => ?_)
  rw [hroot, eq_comm]

end Session

end PathIgnore
