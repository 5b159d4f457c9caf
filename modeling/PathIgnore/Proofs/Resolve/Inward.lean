import PathIgnore.Proofs.Resolve.Levels
import PathIgnore.Proofs.Resolve.Reference
import PathIgnore.Proofs.Resolve.Shown
import PathIgnore.Proofs.Rule.Lines

/-!
# What a verdict does not depend on

Files are consulted from the outside in, and the first that decides ends it. So two disks give one
verdict if they agree on the marker above the path, and on the files up to the one that decides on the
first disk. What they hold inward of it, or off the chain, does not matter.

A plan is cut behind the deciding file. What comes before the cut is the same on both disks
(`decision_congr`), and what comes behind it holds no rule of that file (`file_ne_of_mem_behind`), so it
was not asked.
-/

namespace PathIgnore

/-- The file has one fingerprint on both disks and reads the same. -/
def Snapshot.AgreesOn (s₁ s₂ : Snapshot) (file : Text) : Prop :=
  s₁.stat file = s₂.stat file ∧ s₁.read file = s₂.read file

namespace Snapshot

variable {s s₁ s₂ : Snapshot}

theorem AgreesOn.rulesOf_eq {file : Text} (h : s₁.AgreesOn s₂ file) :
    s₁.rulesOf file = s₂.rulesOf file := by
  rw [rulesOf, rulesOf, h.1, h.2]

/-! ## Plans -/

theorem decision_congr {plan : List Consultation}
    (h : ∀ step ∈ plan, s₁.rulesOf step.file = s₂.rulesOf step.file) :
    s₁.decision plan = s₂.decision plan := by
  induction plan with
  | nil => rfl
  | cons step rest ih =>
    rw [decision_cons, decision_cons, consult, consult, h step List.mem_cons_self,
      ih fun x hx => h x (List.mem_cons_of_mem _ hx)]

theorem decision_append (pre post : List Consultation) :
    s.decision (pre ++ post) =
      match s.decision pre with
      | .error e => .error e
      | .ok (some found) => .ok (some found)
      | .ok none => s.decision post := by
  rw [decision, findSomeM?_append, decision]
  cases pre.findSomeM? s.consult with
  | error e => rfl
  | ok found => cases found <;> rfl

theorem exists_lines_of_rulesOf {file : Text} {rules : RuleSet} (h : s.rulesOf file = .ok (some rules)) :
    ∃ lines, rules = .ofLines file lines := by
  rw [rulesOf] at h
  split at h
  · cases h
  · cases h
  · split at h
    · cases h
    · cases h
      exact ⟨_, rfl⟩
    · cases h

/-- The rule that decides comes from a file of the plan. -/
theorem exists_file_of_decision {q : Candidate} {r : Rule} : ∀ {plan : List Consultation},
    s.decision plan = .ok (some (q, r)) → ∃ step ∈ plan, step.file = r.source
  | [], h => by cases h
  | step :: rest, h => by
    obtain ⟨rules?, hrules, hfirst | ⟨-, hrest⟩⟩ := decision_cons_eq_some_iff.mp h
    · obtain ⟨rules, rfl, hfound⟩ := Option.bind_eq_some_iff.mp hfirst
      obtain ⟨lines, rfl⟩ := exists_lines_of_rulesOf hrules
      obtain ⟨c, -, hmap⟩ := List.exists_of_findSome?_eq_some hfound
      obtain ⟨r', hmatch, hpair⟩ := Option.map_eq_some_iff.mp hmap
      cases hpair
      have hmem := (RuleSet.of_firstMatch hmatch).1
      exact ⟨step, List.mem_cons_self, (RuleSet.source_of_mem_ofLines hmem).symm⟩
    · obtain ⟨other, hother, hfile⟩ := exists_file_of_decision hrest
      exact ⟨other, List.mem_cons_of_mem _ hother, hfile⟩

/-- **A plan decides alike on disks that agree up to the deciding file.** -/
theorem decision_eq_of_agree_before {pre post : List Consultation} {q : Candidate} {r : Rule}
    (h : s₁.decision (pre ++ post) = .ok (some (q, r)))
    (hpost : ∀ step ∈ post, step.file ≠ r.source)
    (hagree : ∀ step ∈ pre, s₁.rulesOf step.file = s₂.rulesOf step.file) :
    s₂.decision (pre ++ post) = .ok (some (q, r)) := by
  rw [decision_append] at h
  cases hpre : s₁.decision pre with
  | error fault =>
    rw [hpre] at h
    cases h
  | ok found =>
    rw [hpre] at h
    cases found with
    | none =>
      -- The deciding file would have to come behind the cut.
      obtain ⟨step, hstep, hfile⟩ := exists_file_of_decision h
      exact absurd hfile (hpost step hstep)
    | some found =>
      rw [decision_append, ← decision_congr hagree, hpre]
      exact h

end Snapshot

/-! ## Levels of a plan -/

namespace Plan

/-- The consultations in the directory that stands `i + 1` levels above the path. -/
def level (names : List Text) (path : Text) (i : Nat) : List Consultation :=
  inDirectory names (Path.above path (i + 1)) ((List.range (i + 1)).map (Path.above path)).reverse

theorem file_of_mem_level {names : List Text} {path : Text} {i : Nat} {step : Consultation}
    (h : step ∈ level names path i) :
    ∃ name ∈ names, Path.join (Path.above path (i + 1)) name = step.file := by
  obtain ⟨name, hname, rfl⟩ := List.mem_map.mp h
  exact ⟨name, hname, rfl⟩

theorem exists_reverse_range {i levels : Nat} (h : i < levels) :
    ∃ outer, (List.range levels).reverse = outer ++ i :: (List.range i).reverse ∧
      ∀ j ∈ outer, i < j ∧ j < levels := by
  obtain ⟨m, rfl⟩ := Nat.exists_eq_add_of_lt h
  refine ⟨((List.range m).map (i + 1 + ·)).reverse, ?_, ?_⟩
  · rw [show i + m + 1 = i + 1 + m by omega, List.range_add, List.reverse_append, List.range_succ,
      List.reverse_append]
    rfl
  · intro j hj
    rw [List.mem_reverse, List.mem_map] at hj
    obtain ⟨k, hk, rfl⟩ := hj
    have hlt := List.mem_range.mp hk
    omega

/-- What is consulted in the levels outward of `i`, and then the first `count` files in level `i`. -/
def before (names : List Text) (path : Text) (outer : List Nat) (i count : Nat) : List Consultation :=
  outer.flatMap (level names path) ++ level (names.take count) path i

/-- What is consulted behind that. -/
def behind (names : List Text) (path : Text) (i count : Nat) : List Consultation :=
  level (names.drop count) path i ++ (List.range i).reverse.flatMap (level names path)

theorem flatMap_level_eq (names : List Text) (path : Text) (outer : List Nat) (i count : Nat) :
    (outer ++ i :: (List.range i).reverse).flatMap (level names path) =
      before names path outer i count ++ behind names path i count := by
  have hcut : level names path i =
      level (names.take count) path i ++ level (names.drop count) path i := by
    rw [level, level, level, inDirectory, inDirectory, inDirectory, ← List.map_append,
      List.take_append_drop]
  rw [List.flatMap_append, List.flatMap_cons, hcut, before, behind, List.append_assoc,
    List.append_assoc]

variable {names : FileNames} {l : List Text} {i : Nat}

theorem join_above (hl : ∀ x ∈ l, Path.IsSegment x) (name : Text) (j : Nat) :
    Path.join (Path.above (Path.ofSegments l) j) name = Path.ofSegments (name :: l.drop j) := by
  rw [Path.above_ofSegments hl, Path.join_ofSegments fun x hx => hl x (List.mem_of_mem_drop hx)]

theorem drop_eq_of_join_above_eq (hl : ∀ x ∈ l, Path.IsSegment x) {name other : Text} {j : Nat}
    (hname : name ∈ names.texts) (hother : other ∈ names.texts)
    (h : Path.join (Path.above (Path.ofSegments l) i) name =
      Path.join (Path.above (Path.ofSegments l) j) other) : name = other ∧ l.drop i = l.drop j := by
  rw [join_above hl, join_above hl] at h
  have hdrop : ∀ k, ∀ x ∈ l.drop k, Path.IsSegment x := fun k x hx => hl x (List.mem_of_mem_drop hx)
  have hlists := Path.ofSegments_injective
    (List.forall_mem_cons.mpr ⟨names.isSegment_of_mem_texts hname, hdrop i⟩)
    (List.forall_mem_cons.mpr ⟨names.isSegment_of_mem_texts hother, hdrop j⟩) h
  rwa [List.cons.injEq] at hlists

/-- **Behind a file it is not consulted again.** -/
theorem file_ne_of_mem_behind (hl : ∀ x ∈ l, Path.IsSegment x) (hi : i = 0 ∨ i < l.length) {k : Nat}
    {name : Text} (hname : names.texts[k]? = some name) {step : Consultation}
    (h : step ∈ behind names.texts (Path.ofSegments l) i (k + 1)) :
    step.file ≠ Path.join (Path.above (Path.ofSegments l) (i + 1)) name := by
  have hmem : name ∈ names.texts := List.mem_of_getElem? hname
  intro hfile
  rw [behind, List.mem_append] at h
  rcases h with hhere | hinner
  · -- In the same directory what is left has other names.
    obtain ⟨other, hother, hstep⟩ := file_of_mem_level hhere
    obtain ⟨rfl, -⟩ := drop_eq_of_join_above_eq hl (List.mem_of_mem_drop hother) hmem
      (hstep.trans hfile)
    have htake : other ∈ names.texts.take (k + 1) := by
      rw [List.mem_iff_getElem?]
      exact ⟨k, by rw [List.getElem?_take_of_lt (Nat.lt_succ_self k), hname]⟩
    exact List.disjoint_take_drop names.nodup_texts (Nat.le_refl _) htake hother
  · -- Further inward the directory is another one.
    obtain ⟨j, hj, hlevel⟩ := List.mem_flatMap.mp hinner
    rw [List.mem_reverse, List.mem_range] at hj
    obtain ⟨other, hother, hstep⟩ := file_of_mem_level hlevel
    obtain ⟨-, hdrop⟩ := drop_eq_of_join_above_eq hl hother hmem (hstep.trans hfile)
    have hlength := congrArg List.length hdrop
    rw [List.length_drop, List.length_drop] at hlength
    omega

end Plan

/-! ## Answers -/

namespace Snapshot

variable {s₁ s₂ : Snapshot} {d : Discovery} {l : List Text} {path : Text}

theorem boundaryRoot_congr {marker : Text}
    (h : ∀ a ∈ Path.ancestors path, s₁.has (Path.join a marker) = s₂.has (Path.join a marker)) :
    s₁.boundaryRoot marker path = s₂.boundaryRoot marker path := by
  rw [boundaryRoot, boundaryRoot]
  generalize Path.ancestors path = l at h
  induction l with
  | nil => rfl
  | cons a rest ih =>
    rw [List.find?_cons, List.find?_cons, h a List.mem_cons_self,
      ih fun b hb => h b (List.mem_cons_of_mem _ hb)]

theorem resolution_congr
    (hroot : s₁.boundaryRoot d.boundaryMarker path = s₂.boundaryRoot d.boundaryMarker path)
    (hdecision : s₁.decisionFor d path = s₂.decisionFor d path) :
    s₁.resolution d path = s₂.resolution d path := by
  have houtside : s₁.IgnoresOutside d path ↔ s₂.IgnoresOutside d path := by
    rw [IgnoresOutside, IgnoresOutside, hroot]
  simp only [resolution, houtside, hroot, hdecision]

theorem boundaryRoot_of_resolution {resolution : Resolution}
    (h : s₁.resolution d path = .ok resolution) :
    resolution.boundaryRoot = s₁.boundaryRoot d.boundaryMarker path := by
  rw [Snapshot.resolution] at h
  split at h
  · next houtside =>
    cases h
    exact houtside.1.symm
  · cases hdecision : s₁.decisionFor d path with
    | error fault =>
      rw [hdecision] at h
      cases h
    | ok found =>
      rw [hdecision] at h
      cases h
      rfl

theorem exists_decisionFor_of_rule {resolution : Resolution} {r : Rule}
    (h : s₁.resolution d path = .ok resolution) (hrule : resolution.rule? = some r) :
    ∃ q, s₁.decisionFor d path = .ok (some (q, r)) := by
  rw [Snapshot.resolution] at h
  split at h
  · cases h
    cases hrule
  · cases hdecision : s₁.decisionFor d path with
    | error fault =>
      rw [hdecision] at h
      cases h
    | ok found =>
      rw [hdecision] at h
      cases h
      cases found with
      | none => cases hrule
      | some found =>
        cases hrule
        exact ⟨found.1, rfl⟩

/-- What a path comes to, by levels. -/
theorem decisionFor_ofSegments (s : Snapshot) (hl : ∀ x ∈ l, Path.IsSegment x) :
    s.decisionFor d (Path.ofSegments l) =
      s.decision ((List.range (levelsUpTo (Path.ofSegments l)
        (s.boundaryRoot d.boundaryMarker (Path.ofSegments l)))).reverse.flatMap
          (Plan.level d.fileNames.texts (Path.ofSegments l))) := by
  rw [decisionFor, upTo_eq_map_range hl mem_ancestors_of_boundaryRoot, ofChain_map_range]
  rfl

/-- The rule that decides comes from a file on the levels that count. -/
theorem exists_level_of_decisionFor (hl : ∀ x ∈ l, Path.IsSegment x) {q : Candidate} {r : Rule}
    (h : s₁.decisionFor d (Path.ofSegments l) = .ok (some (q, r))) :
    ∃ (i k : Nat) (name : Text), i < levelsUpTo (Path.ofSegments l)
        (s₁.boundaryRoot d.boundaryMarker (Path.ofSegments l)) ∧
      d.fileNames.texts[k]? = some name ∧
        r.source = Path.join (Path.above (Path.ofSegments l) (i + 1)) name := by
  rw [decisionFor_ofSegments s₁ hl] at h
  obtain ⟨step, hstep, hsource⟩ := exists_file_of_decision h
  obtain ⟨i, hi, hlevel⟩ := List.mem_flatMap.mp hstep
  rw [List.mem_reverse, List.mem_range] at hi
  obtain ⟨name, hname, hfile⟩ := Plan.file_of_mem_level hlevel
  obtain ⟨k, hk⟩ := List.mem_iff_getElem?.mp hname
  exact ⟨i, k, name, hi, hk, hsource.symm.trans hfile.symm⟩

end Snapshot

/-- No more levels count than the path has. -/
theorem level_lt_of_lt_levelsUpTo {l : List Text} (hl : ∀ x ∈ l, Path.IsSegment x) {root : Option Text}
    (hroot : ∀ r ∈ root, r ∈ Path.ancestors (Path.ofSegments l)) {i : Nat}
    (hi : i < levelsUpTo (Path.ofSegments l) root) : i = 0 ∨ i < l.length := by
  cases root with
  | none =>
    rw [levelsUpTo] at hi
    omega
  | some r =>
    have hlt := List.idxOf_lt_length_of_mem (hroot r rfl)
    rw [Path.ancestors_ofSegments hl, List.length_map, List.length_range,
      ← Path.ancestors_ofSegments hl] at hlt
    rw [levelsUpTo] at hi
    omega

/-- The disks agree on the files of the names outward of level `i` of the path, and in level `i` on those
of the first `count` names. -/
structure Snapshot.AgreesOutward (s₁ s₂ : Snapshot) (names : List Text) (path : Text)
    (levels i count : Nat) : Prop where
  outward : ∀ j, i < j → j < levels → ∀ name ∈ names,
    s₁.AgreesOn s₂ (Path.join (Path.above path (j + 1)) name)
  here : ∀ name ∈ names.take count, s₁.AgreesOn s₂ (Path.join (Path.above path (i + 1)) name)

/-- **Where disks agree up to the deciding file, one rule decides on both.** -/
theorem Snapshot.resolution_eq_of_agreesOutward {s₁ s₂ : Snapshot} {d : Discovery} {l : List Text}
    (hl : ∀ x ∈ l, Path.IsSegment x)
    (hroot : s₁.boundaryRoot d.boundaryMarker (Path.ofSegments l) =
      s₂.boundaryRoot d.boundaryMarker (Path.ofSegments l))
    {q : Candidate} {r : Rule} (hdecision : s₁.decisionFor d (Path.ofSegments l) = .ok (some (q, r)))
    {i k : Nat} {name : Text}
    (hi : i < levelsUpTo (Path.ofSegments l) (s₁.boundaryRoot d.boundaryMarker (Path.ofSegments l)))
    (hname : d.fileNames.texts[k]? = some name)
    (hsource : r.source = Path.join (Path.above (Path.ofSegments l) (i + 1)) name)
    (hagree : s₁.AgreesOutward s₂ d.fileNames.texts (Path.ofSegments l)
      (levelsUpTo (Path.ofSegments l) (s₁.boundaryRoot d.boundaryMarker (Path.ofSegments l))) i (k + 1)) :
    s₂.resolution d (Path.ofSegments l) = s₁.resolution d (Path.ofSegments l) := by
  refine (resolution_congr hroot ?_).symm
  rw [hdecision]
  have hlevel := level_lt_of_lt_levelsUpTo hl mem_ancestors_of_boundaryRoot hi
  rw [decisionFor_ofSegments s₁ hl] at hdecision
  rw [decisionFor_ofSegments s₂ hl, ← hroot]
  obtain ⟨outer, hrange, houter⟩ := Plan.exists_reverse_range hi
  rw [hrange, Plan.flatMap_level_eq _ _ outer i (k + 1)] at hdecision ⊢
  refine (decision_eq_of_agree_before hdecision ?_ ?_).symm
  · intro step hstep
    rw [hsource]
    exact Plan.file_ne_of_mem_behind hl hlevel hname hstep
  · intro step hstep
    rw [Plan.before, List.mem_append, List.mem_flatMap] at hstep
    rcases hstep with ⟨j, hj, hstep⟩ | hstep
    · obtain ⟨other, hother, hfile⟩ := Plan.file_of_mem_level hstep
      rw [← hfile]
      exact (hagree.outward j (houter j hj).1 (houter j hj).2 other hother).rulesOf_eq
    · obtain ⟨other, hother, hfile⟩ := Plan.file_of_mem_level hstep
      rw [← hfile]
      exact (hagree.here other hother).rulesOf_eq

/-- **Where disks agree on all files of the chain, they come to the same.** -/
theorem Snapshot.resolution_eq_of_agreesOn {s₁ s₂ : Snapshot} {d : Discovery} {l : List Text}
    (hl : ∀ x ∈ l, Path.IsSegment x)
    (hroot : s₁.boundaryRoot d.boundaryMarker (Path.ofSegments l) =
      s₂.boundaryRoot d.boundaryMarker (Path.ofSegments l))
    (hagree : ∀ i < levelsUpTo (Path.ofSegments l)
        (s₁.boundaryRoot d.boundaryMarker (Path.ofSegments l)), ∀ name ∈ d.fileNames.texts,
      s₁.AgreesOn s₂ (Path.join (Path.above (Path.ofSegments l) (i + 1)) name)) :
    s₂.resolution d (Path.ofSegments l) = s₁.resolution d (Path.ofSegments l) := by
  refine (resolution_congr hroot ?_).symm
  rw [decisionFor_ofSegments s₁ hl, decisionFor_ofSegments s₂ hl, ← hroot]
  refine decision_congr fun step hstep => ?_
  obtain ⟨i, hi, hlevel⟩ := List.mem_flatMap.mp hstep
  rw [List.mem_reverse, List.mem_range] at hi
  obtain ⟨name, hname, hfile⟩ := Plan.file_of_mem_level hlevel
  rw [← hfile]
  exact (hagree i hi name hname).rulesOf_eq

/-- **A verdict hangs on nothing inward of the file that decides, and on nothing off the chain.** Two
disks that agree on the marker in the directories above a path answer alike if they agree on the files of
the chain up to the one whose rule decides on the first disk, or on all files of the chain. -/
theorem Resolve.answer_eq_of_agreesOutward {σ₁ σ₂ : Type} {disk₁ : Disk σ₁} {disk₂ : Disk σ₂}
    {w₁ : σ₁} {w₂ : σ₂} {s₁ s₂ : Snapshot} (h₁ : disk₁.Shows w₁ s₁) (h₂ : disk₂.Shows w₂ s₂)
    (settings : Settings) (around : Surroundings) (target : Text) {path : Text}
    (hnormal : Path.normalize around target = .ok path)
    (hmarker : ∀ a ∈ Path.ancestors path,
      s₁.has (Path.join a settings.boundaryMarker) = s₂.has (Path.join a settings.boundaryMarker))
    {resolution : Resolution}
    (hanswer : checkAnew disk₁ settings around target w₁ = .ok resolution) :
    let names := settings.fileNames.texts
    let levels := levelsUpTo path resolution.boundaryRoot
    (∀ r, resolution.rule? = some r →
      (∃ (i k : Nat) (name : Text), i < levels ∧ names[k]? = some name ∧
        r.source = Path.join (Path.above path (i + 1)) name) ∧
      ∀ (i k : Nat) (name : Text), i < levels → names[k]? = some name →
        r.source = Path.join (Path.above path (i + 1)) name →
        s₁.AgreesOutward s₂ names path levels i (k + 1) →
          checkAnew disk₂ settings around target w₂ = .ok resolution) ∧
    ((∀ i < levels, ∀ name ∈ names, s₁.AgreesOn s₂ (Path.join (Path.above path (i + 1)) name)) →
      checkAnew disk₂ settings around target w₂ = .ok resolution) := by
  have hpath := Path.isCanonical_of_normalize hnormal
  have hroot := Snapshot.boundaryRoot_congr hmarker
  dsimp only
  rw [checkAnew_of_ok _ _ hnormal, answer_check_of_shows h₁ _ hpath] at hanswer
  rw [checkAnew_of_ok _ _ hnormal, answer_check_of_shows h₂ _ hpath,
    Snapshot.boundaryRoot_of_resolution hanswer, ← hanswer]
  obtain ⟨l, hl, rfl⟩ := hpath.exists_segments
  refine ⟨fun r hrule => ?_, Snapshot.resolution_eq_of_agreesOn hl hroot⟩
  obtain ⟨q, hdecision⟩ := Snapshot.exists_decisionFor_of_rule hanswer hrule
  exact ⟨Snapshot.exists_level_of_decisionFor hl hdecision, fun i k name hi hname hsource =>
    Snapshot.resolution_eq_of_agreesOutward hl hroot hdecision hi hname hsource⟩

/-- What stands inward of the file that decides does not matter, a rule that takes back included. -/
theorem Resolve.answer_eq_of_negated_inward :
    let outer := [("/r/.git".toList, []), ("/r/.aiignore".toList, ["build/".toList])]
    let inner := [("/r/build/.aiignore".toList, ["!*".toList])]
    let answer (files : List (Text × List Text)) :=
      checkAnew (Timeline.still (.ofFiles files)).disk .default .atRoot "/r/build/out".toList ⟨0, [], []⟩
    ∃ resolution, answer outer = .ok resolution ∧ resolution.rule? ≠ none ∧
      answer (outer ++ inner) = .ok resolution := by
  intro outer inner answer
  have hnormal : Path.normalize .atRoot "/r/build/out".toList = .ok "/r/build/out".toList := by
    decide +kernel
  have hsource : ((answer outer).toOption.bind (·.rule?)).map (·.source) =
      some "/r/.aiignore".toList := by decide +kernel
  have hlevels : (answer outer).toOption.map (levelsUpTo "/r/build/out".toList ·.boundaryRoot) = some 2 := by
    decide +kernel
  cases hanswer : answer outer with
  | error fault =>
    rw [hanswer] at hsource
    cases hsource
  | ok resolution =>
    rw [hanswer] at hsource hlevels
    have htwo : levelsUpTo "/r/build/out".toList resolution.boundaryRoot = 2 := Option.some.inj hlevels
    obtain ⟨r, hrule, hr⟩ := Option.map_eq_some_iff.mp hsource
    refine ⟨resolution, rfl, Option.ne_none_iff_exists'.mpr ⟨r, hrule⟩, ?_⟩
    refine ((answer_eq_of_agreesOutward (Timeline.still_shows _ _) (Timeline.still_shows _ _)
      .default _ _ hnormal (by decide +kernel) hanswer).1 r hrule).2 1 0 ".aiignore".toList
        (htwo ▸ by decide) (by decide +kernel) (hr.trans (by decide +kernel)) ⟨?_, ?_⟩
    · intro j hj hlt
      have hj : j < 2 := htwo ▸ hlt
      omega
    · intro name hname
      obtain rfl := List.mem_singleton.mp hname
      exact ⟨rfl, rfl⟩

end PathIgnore
