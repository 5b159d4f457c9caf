import PathIgnore.Proofs.Path.Canonical
import PathIgnore.Proofs.Resolve.Unchanged

/-!
# Ignored directories are opaque

Once a rule decides about a directory on the way to a path, everything beneath the directory is
ignored, whatever the files at the directory or beneath it say.

The plans of two paths beneath one directory agree on the files that lie above it, and each of these
files is held against the directory before anything inward of it (`candidates_append`). A scan that is
decided at the directory has met no fault up to there, so the other scan comes as far, unless a rule
decides before (`decision_shared`). What is left is that both chains run through the directory to the
same root.
-/

namespace PathIgnore

/-! ## Plans that run through a directory -/

namespace Plan

theorem inward_cons (names : List Text) (directory : Text) {l : List Text} (hne : l ≠ []) :
    inward names (directory :: l) = inDirectory names directory l ++ inward names l := by
  obtain ⟨p, inner, rfl⟩ := List.exists_cons_of_ne_nil hne
  rfl

/-- All that stands outward of a path is a directory. -/
theorem candidates_append {inner : List Text} (hne : inner ≠ []) : ∀ outer : List Text,
    candidates (outer ++ inner) = outer.map (⟨·, true⟩) ++ candidates inner
  | [] => rfl
  | directory :: outer => by
    have hrest := candidates_append hne outer
    obtain ⟨p, rest, hcons⟩ := List.exists_cons_of_ne_nil (List.append_ne_nil_of_right_ne_nil outer hne)
    rw [hcons] at hrest
    rw [List.cons_append, hcons, List.map_cons, List.cons_append, ← hrest]
    rfl

theorem path_mem_of_mem_candidates {q : Candidate} : ∀ {l : List Text}, q ∈ candidates l → q.path ∈ l
  | [], h => absurd h List.not_mem_nil
  | [path], h => by
    rw [List.mem_singleton.mp h]
    exact List.mem_singleton_self path
  | directory :: p :: inner, h => by
    rcases List.mem_cons.mp h with rfl | h
    · exact List.mem_cons_self
    · exact List.mem_cons_of_mem _ (path_mem_of_mem_candidates h)

/-- The outermost directory of a plan is never a candidate. -/
theorem path_mem_tail {names : List Text} {step : Consultation} {q : Candidate} :
    ∀ {l : List Text}, step ∈ inward names l → q ∈ step.candidates → q.path ∈ l.tail
  | [], h, _ => absurd h List.not_mem_nil
  | [_], h, _ => absurd h List.not_mem_nil
  | directory :: p :: inner, h, hq => by
    rcases List.mem_append.mp h with hhere | hinner
    · obtain ⟨name, -, rfl⟩ := List.mem_map.mp hhere
      exact path_mem_of_mem_candidates hq
    · exact List.mem_of_mem_tail (path_mem_tail hinner hq)

end Plan

/-! ## Decisions -/

namespace Snapshot

variable {s : Snapshot}

/-- Two plans that ask the same files in a directory, one after the other: if the first decides, so does
the second, as long as it does so where the first decides with a file of the directory or later on. -/
theorem decision_inDirectory {directory : Text} {l₁ l₂ : List Text} {rest₁ rest₂ : List Consultation}
    {found : Candidate × Rule}
    (hhere : ∀ rules : RuleSet, rules.firstOf (Plan.candidates l₁) = some found →
      ∃ other, rules.firstOf (Plan.candidates l₂) = some other)
    (hrest : s.decision rest₁ = .ok (some found) → ∃ other, s.decision rest₂ = .ok (some other)) :
    ∀ names : List Text,
      s.decision (Plan.inDirectory names directory l₁ ++ rest₁) = .ok (some found) →
        ∃ other, s.decision (Plan.inDirectory names directory l₂ ++ rest₂) = .ok (some other)
  | [], h => hrest h
  | name :: names, h => by
    obtain ⟨rules?, hrules, hfound⟩ := decision_cons_eq_some_iff.mp h
    cases hsecond : rules?.bind (·.firstOf (Plan.candidates l₂)) with
    | some other => exact ⟨other, decision_cons_eq_some_iff.mpr ⟨rules?, hrules, .inl hsecond⟩⟩
    | none =>
      rcases hfound with hfirst | ⟨-, hlater⟩
      · obtain ⟨rules, rfl, hmatch⟩ := Option.bind_eq_some_iff.mp hfirst
        obtain ⟨other, hother⟩ := hhere rules hmatch
        rw [Option.bind_some, hother] at hsecond
        cases hsecond
      · obtain ⟨other, hother⟩ := decision_inDirectory hhere hrest names hlater
        exact ⟨other, decision_cons_eq_some_iff.mpr ⟨rules?, hrules, .inr ⟨hsecond, hother⟩⟩⟩

/-- **Plans that run through one directory: if one decides at the directory, the other decides.** -/
theorem decision_shared {names : List Text} {directory : Text} {inner₁ inner₂ : List Text}
    {q : Candidate} {r : Rule} (hne₁ : inner₁ ≠ []) (hne₂ : inner₂ ≠ []) (hnot : directory ∉ inner₁)
    (hq : q.path = directory) : ∀ outer : List Text,
      s.decision (Plan.inward names (outer ++ directory :: inner₁)) = .ok (some (q, r)) →
        ∃ found, s.decision (Plan.inward names (outer ++ directory :: inner₂)) = .ok (some found)
  | [], h => by
    -- Neither the files at the directory nor those beneath it are held against it.
    obtain ⟨step, hstep, hcandidate⟩ := exists_of_decision h
    exact absurd (hq ▸ Plan.path_mem_tail hstep hcandidate) hnot
  | above :: outer, h => by
    rw [List.cons_append, Plan.inward_cons _ _ (by simp)] at h ⊢
    refine decision_inDirectory ?_ (decision_shared hne₁ hne₂ hnot hq outer) names h
    intro rules hrules
    rw [List.append_cons outer directory, Plan.candidates_append hne₁, RuleSet.firstOf_append] at hrules
    rw [List.append_cons outer directory, Plan.candidates_append hne₂, RuleSet.firstOf_append]
    cases hshared : rules.firstOf ((outer ++ [directory]).map (⟨·, true⟩)) with
    | some found => exact ⟨found, rfl⟩
    | none =>
      -- What the first plan has left to decide about stands inward of the directory.
      rw [hshared, Option.none_or] at hrules
      have hmem := Plan.path_mem_of_mem_candidates (RuleSet.mem_of_firstOf hrules)
      exact absurd (hq ▸ hmem) hnot

end Snapshot

/-! ## Chains that run through a directory -/

/-- A chain through a directory, from the outside in: the chain of the directory comes first. -/
theorem Chain.exists_reverse_upTo {root directory path : Text} (hpath : Path.trimEnd path = path)
    (hdirectory : directory ∈ Path.ancestors path) (hroot : root ∈ Path.ancestorsFrom directory) :
    ∃ inner, directory ∉ inner ∧ (upTo path (some root)).reverse =
      (through root (Path.ancestorsFrom directory)).reverse ++ directory :: (inner ++ [path]) := by
  rw [Path.ancestors, hpath] at hdirectory
  obtain ⟨inner, hnot, hthrough⟩ := exists_through_ancestorsFrom path hdirectory hroot
  refine ⟨inner.reverse, fun h => hnot (List.mem_reverse.mp h), ?_⟩
  rw [upTo, Path.ancestors, hpath, hthrough]
  simp

/-- What is held against the rules on a chain, other than the path, lies beneath the root. -/
theorem Chain.exists_root_of_candidate {names : List Text} {path : Text} {root : Option Text}
    {step : Consultation} {q : Candidate} (hpath : Path.trimEnd path = path)
    (hroot : ∀ r ∈ root, r ∈ Path.ancestors path) (hne : q.path ≠ path)
    (hstep : step ∈ Plan.ofChain names (upTo path root)) (hq : q ∈ step.candidates) :
    ∃ r ∈ root, q.path ∈ Path.ancestors path ∧ r ∈ Path.ancestorsFrom q.path := by
  have htail := Plan.path_mem_tail hstep hq
  rw [List.tail_reverse, List.mem_reverse] at htail
  cases root with
  | none => exact absurd (List.mem_singleton.mp htail) hne
  | some r =>
    have hmem := hroot r rfl
    rw [upTo, List.dropLast_cons_of_ne_nil (through_ne_nil hmem), List.mem_cons] at htail
    have hinside := htail.resolve_left hne
    rw [Path.ancestors, hpath] at hinside hmem ⊢
    exact ⟨r, rfl, mem_of_mem_through (List.dropLast_subset _ hinside),
      mem_ancestorsFrom_of_mem_dropLast path hmem hinside⟩

/-- A path strictly beneath an ancestor of another one has it as an ancestor too. -/
theorem Path.mem_ancestors_of_isWithin {l₁ l₂ : List Text} {directory : Text}
    (hl₁ : ∀ x ∈ l₁, IsSegment x) (hl₂ : ∀ x ∈ l₂, IsSegment x)
    (hmem : directory ∈ ancestors (ofSegments l₁)) (hwithin : isWithin directory (ofSegments l₂) = true)
    (hne : ofSegments l₂ ≠ directory) : directory ∈ ancestors (ofSegments l₂) := by
  obtain ⟨m, -, a, rfl, rfl⟩ := (mem_ancestors_ofSegments_iff hl₁).mp hmem
  have ha : ∀ x ∈ a, IsSegment x := fun x hx => hl₁ x (List.mem_append_right m hx)
  obtain ⟨inner, rfl⟩ := (isWithin_ofSegments_iff ha hl₂).mp hwithin
  refine (mem_ancestors_ofSegments_iff hl₂).mpr ⟨inner, ?_, a, rfl, rfl⟩
  rintro rfl
  exact hne rfl

/-! ## Opacity -/

/-- **If a rule decides about one path at a directory above it, a rule decides about every path beneath
that directory.** -/
theorem Snapshot.exists_decision_beneath (s : Snapshot) (d : Discovery) {l₁ l₂ : List Text}
    {q : Candidate} {r : Rule} (hl₁ : ∀ x ∈ l₁, Path.IsSegment x) (hl₂ : ∀ x ∈ l₂, Path.IsSegment x)
    (hdecision : s.decisionFor d (Path.ofSegments l₁) = .ok (some (q, r)))
    (hne : q.path ≠ Path.ofSegments l₁) (hwithin : Path.isWithin q.path (Path.ofSegments l₂) = true)
    (hbeneath : Path.ofSegments l₂ ≠ q.path)
    (hroot : s.boundaryRoot d.boundaryMarker (Path.ofSegments l₁) =
      s.boundaryRoot d.boundaryMarker (Path.ofSegments l₂)) :
    s.boundaryRoot d.boundaryMarker (Path.ofSegments l₂) ≠ none ∧
      ∃ found, s.decisionFor d (Path.ofSegments l₂) = .ok (some found) := by
  obtain ⟨step, hstep, hq⟩ := exists_of_decision hdecision
  obtain ⟨root, hsome, hmem, habove⟩ := Chain.exists_root_of_candidate (Path.trimEnd_ofSegments hl₁)
    mem_ancestors_of_boundaryRoot hne hstep hq
  have hmem' := Path.mem_ancestors_of_isWithin hl₁ hl₂ hmem hwithin hbeneath
  -- Both chains are the chain of the directory, and then something inward of it.
  obtain ⟨inner₁, hnot, hchain₁⟩ :=
    Chain.exists_reverse_upTo (Path.trimEnd_ofSegments hl₁) hmem habove
  obtain ⟨inner₂, -, hchain₂⟩ :=
    Chain.exists_reverse_upTo (Path.trimEnd_ofSegments hl₂) hmem' habove
  have hnot' : q.path ∉ inner₁ ++ [Path.ofSegments l₁] := by
    rw [List.mem_append, List.mem_singleton, not_or]
    exact ⟨hnot, hne⟩
  rw [Option.mem_def] at hsome
  rw [decisionFor, Plan.ofChain, hsome, hchain₁] at hdecision
  rw [decisionFor, Plan.ofChain, ← hroot, hsome, hchain₂]
  exact ⟨Option.some_ne_none root, decision_shared (by simp) (by simp) hnot' rfl _ hdecision⟩

theorem Resolve.mem_of_mem_announce {shown : Diagnostics} {t : Traced Watch Resolution} {p : Text}
    {r : Rule} (h : .matched p r ∈ (announce shown t).notices) : .matched p r ∈ t.notices := by
  unfold announce at h
  split at h
  · refine (List.mem_append.mp h).resolve_right fun hlast => ?_
    rw [Resolution.notices] at hlast
    split at hlast <;> simp at hlast
  · exact h

/-- **Everything beneath an ignored directory is ignored.** On a disk that never changes, let a check tell,
if it is asked to, that a rule decides about a directory other than the target. Then the check of any path
strictly beneath that directory, with the same boundary root, has the path ignored, whatever it is asked to
tell. -/
theorem Resolve.ignored_beneath (s : Snapshot) (settings : Settings) (around : Surroundings)
    (target beneath path₁ path₂ directory : Text) (r : Rule) (w₁ w₂ : Watch)
    (hnormal₁ : Path.normalize around target = .ok path₁)
    (hnormal₂ : Path.normalize around beneath = .ok path₂)
    (hmatched : .matched directory r ∈
      (check (Timeline.still s).disk { settings with debugLog := true } path₁ .empty w₁).notices)
    (hne : directory ≠ path₁) (hwithin : Path.isWithin directory path₂ = true)
    (hbeneath : path₂ ≠ directory)
    (hroot : (Chain.findBoundaryRoot (Timeline.still s).disk settings.boundaryMarker path₁ w₁).1 =
      (Chain.findBoundaryRoot (Timeline.still s).disk settings.boundaryMarker path₂ w₂).1) :
    ∃ resolution, (check (Timeline.still s).disk settings path₂ .empty w₂).answer = .ok resolution ∧
      resolution.verdict.ignored = true := by
  obtain ⟨l₁, hl₁, rfl⟩ := (Path.isCanonical_of_normalize hnormal₁).exists_segments
  obtain ⟨l₂, hl₂, rfl⟩ := (Path.isCanonical_of_normalize hnormal₂).exists_segments
  rw [findBoundaryRoot_still, findBoundaryRoot_still] at hroot
  obtain ⟨-, q, hdecision, rfl⟩ :=
    (resolve_still_settles s { settings with debugLog := true } hl₁ w₁).matched directory r
      (mem_of_mem_announce hmatched)
  obtain ⟨hinside, found, hfound⟩ :=
    s.exists_decision_beneath settings.toDiscovery hl₁ hl₂ hdecision hne hwithin hbeneath hroot
  rw [check, answer_announce, (resolve_still_settles s settings hl₂ w₂).answer, Snapshot.resolution,
    if_neg fun h => hinside h.1, hfound]
  exact ⟨_, rfl, rfl⟩

/-- A negated rule inside an ignored directory takes nothing back. -/
theorem Resolve.ignored_beneath_build :
    let files := [("/r/.git".toList, []), ("/r/.aiignore".toList, ["build/".toList]),
      ("/r/build/.aiignore".toList, ["!*".toList])]
    let s : Snapshot :=
      { stat := fun path => .ok ((files.lookup path).map fun _ => ⟨1, 0, 2, 7, 0, 0, 0⟩)
        read := fun path => .ok ((files.lookup path).elim .missing .lines)
        has := fun path => (files.lookup path).isSome }
    let around := Surroundings.atRoot
    ∃ path, Path.normalize around "/r/build/src/keep".toList = .ok path ∧
      ∃ resolution, (check (Timeline.still s).disk .default path .empty ⟨0, [], []⟩).answer =
        .ok resolution ∧ resolution.verdict.ignored = true := by
  intro files s around
  have hany : (check (Timeline.still s).disk { Settings.default with debugLog := true }
      "/r/build/out".toList .empty ⟨0, [], []⟩).notices.any
        (fun | .matched path _ => path == "/r/build".toList | _ => false) = true := by decide +kernel
  obtain ⟨notice, hmem, hmatched⟩ := List.any_eq_true.mp hany
  have hnormal : Path.normalize around "/r/build/src/keep".toList = .ok "/r/build/src/keep".toList := by
    decide +kernel
  cases notice with
  | matched path r =>
    have hpath : path = "/r/build".toList := beq_iff_eq.mp hmatched
    subst hpath
    exact ⟨_, hnormal, ignored_beneath s .default around "/r/build/out".toList
      "/r/build/src/keep".toList _ _ "/r/build".toList r ⟨0, [], []⟩ ⟨0, [], []⟩ (by decide +kernel)
      hnormal hmem (by decide +kernel) (by decide +kernel) (by decide +kernel) (by decide +kernel)⟩
  | _ => cases hmatched

end PathIgnore
