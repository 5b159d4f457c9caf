import PathIgnore.Proofs.Resolve.Refused
import PathIgnore.Session.Basic

/-!
# Queries that are refused

A query is answered with a verdict, a rule or a truth value unless it comes to a text with U+0000 in it that
names nothing; then it is refused, and all three kinds of query are (`Session.step_query`). Such a text is
the name of a user whose home is asked for, or the path of an ignore file. That takes U+0000 behind a tilde
at the front of the path, in the name of an ignore file, or in the directory of the path.
-/

namespace PathIgnore.Session

variable {σ : Type} {d : Disk σ} {around : Surroundings} {s : Session σ} {path normal : Text}
  {root : Option (Option Text)}

/-- The boundary root of a query for a path in normal form, given or looked for, and the disk after the
look. -/
def settledRoot (d : Disk σ) (s : Session σ) (path : Text) :
    Option (Option Text) → Option Text × σ
  | none => Chain.findBoundaryRoot d s.settings.boundaryMarker path s.disk
  | some root => (root, s.disk)

/-- Resolving a path in normal form comes to a file whose path has U+0000 in it. -/
def ComesToNul (d : Disk σ) (s : Session σ) (path : Text) (root : Option (Option Text)) : Prop :=
  let settled := s.settledRoot d path root
  Resolve.AsksForNul d s.settings.toDiagnostics
    (Resolve.consultations s.settings.toDiscovery path settled.1) s.cache settled.2

/-- A query of the path asks for the home of a user, or for a file, whose name has U+0000 in it. -/
def AsksForNul (d : Disk σ) (around : Surroundings) (s : Session σ) (path : Text)
    (root : Option (Option Text)) : Prop :=
  Path.NamesNulUser (Path.named around path) ∨
    ∃ normal, Path.normalize around path = .ok normal ∧ s.ComesToNul d normal root

theorem resolutionOf_eq_within (d : Disk σ) (s : Session σ) (path : Text) (root : Option (Option Text))
    (c : Cache) : s.resolutionOf d path root c =
      Resolve.within d s.settings path (s.settledRoot d path root).1 c (s.settledRoot d path root).2 := by
  cases root with
  | none => rfl
  | some root => rfl

theorem answer_resolutionOf_eq_error_iff (hd : d.RefusesNul) :
    (s.resolutionOf d path root s.cache).answer = .error .embeddedNul ↔ s.ComesToNul d path root := by
  obtain ⟨resolution, hanswer⟩ := Resolve.exists_answer_within d s.settings path
    (s.settledRoot d path root).1 s.cache (s.settledRoot d path root).2
  rw [resolutionOf_eq_within, hanswer, ComesToNul, ← Resolve.answer_scan_eq_error_iff hd]
  generalize (Resolve.scan d _ _ s.cache _).answer = found
  cases found with
  | error fault => simp [Except.map]
  | ok r => simp [Except.map]

theorem asksForNul_iff_of_ok (h : Path.normalize around path = .ok normal) :
    s.AsksForNul d around path root ↔ s.ComesToNul d normal root := by
  have huser : ¬ Path.NamesNulUser (Path.named around path) := by
    rw [← Path.normalize_eq_error_iff around path .embeddedNul, h]
    simp
  rw [AsksForNul, or_iff_right huser, h]
  simp

/-- **Resolving is refused exactly when it comes to a name with U+0000 in it.** -/
theorem answer_resolution_eq_error_iff (hd : d.RefusesNul) :
    (s.resolution d around path root s.cache).answer = .error .embeddedNul ↔
      s.AsksForNul d around path root := by
  cases hnormal : Path.normalize around path with
  | error fault =>
    cases fault
    rw [resolution_of_error d s hnormal]
    exact iff_of_true rfl (.inl ((Path.normalize_eq_error_iff around path _).mp hnormal))
  | ok normal =>
    rw [resolution_of_ok d s hnormal, asksForNul_iff_of_ok hnormal, answer_resolutionOf_eq_error_iff hd]

/-- The three kinds of query answer with what one resolution comes to. -/
theorem answer_step_query (d : Disk σ) (around : Surroundings) (s : Session σ) (path : Text)
    (root : Option (Option Text)) :
    let answer := (s.resolution d around path root s.cache).answer
    (step d around (.check path root) s).answer = answerOf (fun r => .verdict r.verdict) answer ∧
      (step d around (.resolve path root) s).answer = answerOf (fun r => .rule r.rule?) answer ∧
      (step d around (.isIgnored path root) s).answer =
        answerOf (fun r => .truth r.verdict.ignored) answer := by
  have hannounced := Resolve.answer_announce s.settings.toDiagnostics
    (s.resolution d around path root s.cache)
  exact ⟨congrArg (answerOf _) hannounced, rfl, congrArg (answerOf _) hannounced⟩

/-- **Queries are answered unless they come to a name with U+0000 in it.** Then they are refused, and
else they answer alike: with the verdict, the rule and the truth value of one resolution, whatever stands
on the disk and in the cache. They never come to one where there is no U+0000 in the names of the ignore
files, in the name of a user behind a tilde, and in the directory of the path. -/
theorem step_query (hd : d.RefusesNul) (around : Surroundings) (s : Session σ) (path : Text)
    (root : Option (Option Text)) :
    let answer (request : Request) := (step d around request s).answer
    (s.AsksForNul d around path root →
      answer (.check path root) = .pathFault .embeddedNul ∧
        answer (.resolve path root) = .pathFault .embeddedNul ∧
        answer (.isIgnored path root) = .pathFault .embeddedNul) ∧
    (¬ s.AsksForNul d around path root → ∃ r : Resolution,
      answer (.check path root) = .verdict r.verdict ∧
        answer (.resolve path root) = .rule r.rule? ∧
        answer (.isIgnored path root) = .truth r.verdict.ignored) ∧
    ((∀ name ∈ s.settings.fileNames.texts, '\x00' ∉ name) →
      ¬ Path.NamesNulUser (Path.named around path) →
        (∀ normal, Path.normalize around path = .ok normal → '\x00' ∉ Path.dirName normal) →
          ¬ s.AsksForNul d around path root) := by
  intro answer
  obtain ⟨hcheck, hresolve, hignored⟩ := answer_step_query d around s path root
  have hiff : (s.resolution d around path root s.cache).answer = .error .embeddedNul ↔
      s.AsksForNul d around path root := answer_resolution_eq_error_iff hd
  refine ⟨fun hasks => ?_, fun hasks => ?_, fun hnames huser hdirectory hasks => ?_⟩
  · rw [hiff.mpr hasks] at hcheck hresolve hignored
    exact ⟨hcheck, hresolve, hignored⟩
  · cases hanswer : (s.resolution d around path root s.cache).answer with
    | error fault =>
      cases fault
      exact absurd (hiff.mp hanswer) hasks
    | ok r =>
      rw [hanswer] at hcheck hresolve hignored
      exact ⟨r, hcheck, hresolve, hignored⟩
  · obtain ⟨normal, hnormal, hcomes⟩ := hasks.resolve_left huser
    exact Resolve.not_asksForNul hnames (hdirectory normal hnormal) _ _ _ _ hcomes

/-! ## A tree with nothing in it -/

/-- A name with U+0000 in it, for a file and for a directory. -/
def nulName : Text := "a\x00".toList

/-- The directory is asked for its ignore file. -/
theorem asksForNul_in_directory :
    (start Tree.empty .default (.own false)).AsksForNul Tree.disk .atRoot
      ("/".toList ++ nulName ++ "/b".toList) none :=
  .inr ⟨"/".toList ++ nulName ++ "/b".toList, by decide +kernel, [],
    ⟨"/".toList ++ nulName ++ "/.aiignore".toList, [⟨"/".toList ++ nulName ++ "/b".toList, false⟩]⟩, [],
    by decide +kernel, rfl, by decide⟩

/-- A path in a directory with U+0000 in its name is refused, and so is one that names a user so; one with
U+0000 in its own name is not. -/
theorem step_query_nul_names :
    let around := Surroundings.atRoot
    let s := start Tree.empty .default (.own false)
    let answer (request : Request) := (step Tree.disk around request s).answer
    Tree.disk.RefusesNul ∧
    answer (.check ("/".toList ++ nulName ++ "/b".toList) none) = .pathFault .embeddedNul ∧
    answer (.check ("~".toList ++ nulName) none) = .pathFault .embeddedNul ∧
    ∃ r : Resolution, answer (.check ("/b/".toList ++ nulName) none) = .verdict r.verdict := by
  intro around s answer
  obtain ⟨hdirectory, -, -⟩ := step_query Tree.disk_refusesNul around s
    ("/".toList ++ nulName ++ "/b".toList) none
  obtain ⟨huser, -, -⟩ := step_query Tree.disk_refusesNul around s ("~".toList ++ nulName) none
  obtain ⟨-, hanswered, hfree⟩ := step_query Tree.disk_refusesNul around s ("/b/".toList ++ nulName) none
  have hnormal : Path.normalize around ("/b/".toList ++ nulName) = .ok ("/b/".toList ++ nulName) := by
    decide +kernel
  obtain ⟨r, hverdict, -⟩ := hanswered (hfree (by decide) (by decide) fun normal h => by
    rw [hnormal] at h
    cases h
    decide)
  exact ⟨Tree.disk_refusesNul, (hdirectory asksForNul_in_directory).1, (huser (.inl (by decide))).1, r,
    hverdict⟩

/-- **Not every check gives a verdict**, even with nothing on the disk. -/
theorem not_verdict_of_nul_in_directory :
    let s := start Tree.empty .default (.own false)
    ∀ v : Verdict, (step Tree.disk .atRoot
      (.check ("/".toList ++ nulName ++ "/b".toList) none) s).answer ≠ .verdict v := by
  intro s v hanswer
  rw [(answer_step_query _ _ _ _ _).1, (answer_resolution_eq_error_iff Tree.disk_refusesNul).mpr
    asksForNul_in_directory] at hanswer
  cases hanswer

end PathIgnore.Session
