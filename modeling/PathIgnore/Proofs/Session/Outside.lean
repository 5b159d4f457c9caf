import PathIgnore.Proofs.Resolve.Outside
import PathIgnore.Proofs.Resolve.Shown
import PathIgnore.Proofs.Session.Coherence
import PathIgnore.Proofs.Session.Refused

/-!
# Checks without a boundary root

A path without a boundary root is held against the files beside it by its last segment alone. That is so
after every run, whatever was remembered and whatever the disk shows (`Timeline.Reaches.seesNameAlone`),
and it takes three things: all files that are consulted lie in the directory that holds the path, each of
their rules is held against the last segment whatever its scope, and so the verdict does not hang on the
scope of any rule.

The root of the tree is the exception. It lies in itself, so it is held against its own files, and there
the scope of a rule decides (`Session.not_seesNameAlone_root`).
-/

namespace PathIgnore

namespace Answer

/-- The answer, without saying what the pattern of a rule is held against. -/
def unscoped : Answer → Answer
  | .verdict v => .verdict v.unscoped
  | a => a

/-- Whether the path is ignored, if the answer is a verdict. -/
def ignored? : Answer → Option Bool
  | .verdict v => some v.ignored
  | _ => none

theorem ignored?_unscoped (a : Answer) : a.unscoped.ignored? = a.ignored? := by
  cases a <;> rfl

end Answer

namespace Session

variable {σ : Type} {d : Disk σ} {around : Surroundings} {s : Session σ} {target path : Text}

/-- What is consulted for a path in normal form without a boundary root. -/
def planOutside (s : Session σ) (path : Text) : List Consultation :=
  Resolve.consultations s.settings.toDiscovery path none

/-- What a check of a path in normal form without a boundary root answers if every rule set is changed
before it is held against anything. -/
def checkAs (change : RuleSet → RuleSet) (d : Disk σ) (path : Text) (s : Session σ) : Answer :=
  let verdict (r? : Option Rule) : Verdict := Resolution.verdict ⟨path, none, r?.elim .noMatch .rule⟩
  answerOf (fun r? => .verdict (verdict r?))
    (Resolve.scanAs change d s.settings.toDiagnostics (s.planOutside path) s.cache
      (s.settledRoot d path none).2)

/-- The check of a path in normal form comes to this file, and these are its rules. -/
def ConsultsOutside (d : Disk σ) (s : Session σ) (path file : Text) (rules : RuleSet) : Prop :=
  Resolve.Consults d s.settings.toDiagnostics (s.planOutside path) s.cache (s.settledRoot d path none).2
    file rules

/-- The path, which is the normal form of the target, is held against the files beside it by its last
segment alone. -/
structure SeesNameAlone (d : Disk σ) (around : Surroundings) (s : Session σ) (target path : Text) :
    Prop where
  /-- The path is its last segment, which is not empty, in the directory that holds it. -/
  named : Path.baseName path ≠ [] ∧ Path.join (Path.dirName path) (Path.baseName path) = path
  /-- All files that are consulted lie in that directory, and it is above the path. -/
  files : ∀ file rules, s.ConsultsOutside d path file rules →
    Path.dirName file = Path.dirName path ∧ Path.dirName file ∈ Path.ancestors path
  /-- Whatever their scope, their rules are held against the last segment. -/
  candidates : ∀ file rules, s.ConsultsOutside d path file rules →
    ∀ r ∈ rules.rules, ∀ basenameOnly anchored,
      { r with basenameOnly, anchored }.candidate? path = some (Path.baseName path)
  /-- Without a change this is the check, and a change of the scope of any rules does not show. -/
  unchanged : s.checkAs id d path = (step d around (.check target none) s).answer
  changed : ∀ change : RuleSet → RuleSet, (∀ rules, (change rules).unscoped = rules.unscoped) →
    (s.checkAs change d path).unscoped = (step d around (.check target none) s).answer.unscoped

/-! ## Checks -/

theorem resolution_none (hnormal : Path.normalize around target = .ok path)
    (hroot : (s.settledRoot d path none).1 = none) (houtside : s.settings.ignoreOutside = false) :
    (s.resolution d around target none s.cache).answer =
      (Resolve.scan d s.settings.toDiagnostics (s.planOutside path) s.cache
        (s.settledRoot d path none).2).answer.map fun r? => ⟨path, none, r?.elim .noMatch .rule⟩ := by
  have hlooked : ¬ ((none : Option Text) = none ∧ s.settings.ignoreOutside = true) := by simp [houtside]
  rw [resolution_of_ok d s hnormal, resolutionOf_eq_within, hroot, Resolve.within, planOutside,
    Resolve.consultations, if_neg hlooked, if_neg hlooked]
  rfl

/-- **Without a change, `checkAs` is the check.** -/
theorem checkAs_id (hnormal : Path.normalize around target = .ok path)
    (hroot : (s.settledRoot d path none).1 = none) (houtside : s.settings.ignoreOutside = false) :
    s.checkAs id d path = (step d around (.check target none) s).answer := by
  rw [(answer_step_query d around s target none).1, resolution_none hnormal hroot houtside, checkAs,
    Resolve.scanAs_id]
  generalize (Resolve.scan d _ _ _ _).answer = found
  cases found <;> rfl

theorem unscoped_answerOf_verdict {p : Text} {root : Option Text}
    (found : Except PathFault (Option Rule)) :
    (answerOf (fun r? => .verdict (Resolution.verdict ⟨p, root, r?.elim .noMatch .rule⟩)) found).unscoped =
      answerOf (fun r? => .verdict (Resolution.verdict ⟨p, root, r?.elim .noMatch .rule⟩))
        (found.map (·.map Rule.unscoped)) := by
  cases found with
  | error fault => rfl
  | ok r? => cases r? <;> rfl

/-- A path other than the root is held against the files beside it by its last segment alone, where all
that is remembered comes from its path. -/
theorem seesNameAlone_of_sourced (hc : s.cache.Sourced)
    (hnormal : Path.normalize around target = .ok path) (hroot : (s.settledRoot d path none).1 = none)
    (houtside : s.settings.ignoreOutside = false) (hne : path ≠ Path.root) :
    s.SeesNameAlone d around target path := by
  have hp : Path.IsCanonical path := Path.isCanonical_of_normalize hnormal
  have hbeside : ∀ step ∈ s.planOutside path, step.IsBeside path :=
    fun step hstep => Resolve.isBeside_of_mem_consultations houtside hp hstep
  obtain ⟨hsegment, hjoin⟩ := Path.join_dirName_baseName hp hne
  have hdirectory : ∀ {file rules}, s.ConsultsOutside d path file rules →
      Path.dirName file = Path.dirName path := by
    intro file rules hconsults
    obtain ⟨step, hstep, rfl⟩ := hconsults.mem
    exact (hbeside step hstep).directory
  refine ⟨⟨hsegment.1, hjoin⟩, ?_, ?_, checkAs_id hnormal hroot houtside, ?_⟩
  · intro file rules hconsults
    rw [hdirectory hconsults]
    exact ⟨rfl, Path.dirName_mem_ancestors hp hne⟩
  · intro file rules hconsults r hr basenameOnly anchored
    have hsource : r.source = file := hconsults.comesFrom hc r hr
    exact Rule.candidate?_eq_baseName hp hne (hsource ▸ hdirectory hconsults)
  · intro change hchange
    rw [← checkAs_id hnormal hroot houtside, checkAs, checkAs, unscoped_answerOf_verdict,
      unscoped_answerOf_verdict, Resolve.scanAs_unscoped hp hne hchange _ _ _ hbeside hc]

end Session

/-- In every run, what is remembered of a path comes from there. -/
theorem Timeline.Reaches.sourced {t : Timeline} {around : Surroundings} {s : Session Watch}
    (hs : t.Reaches around s) : s.Holds Cache.Sourced := by
  obtain ⟨w, settings, choice, events, rfl⟩ := hs
  have hrun : RunEffect t fun x y => x.1.Sourced → y.1.Sourced :=
    { Cache.effect_sourced t.disk with
      forget := fun forgotten _ _ hc => Cache.Every.invalidate hc forgotten
      wait := fun _ _ _ hc => hc }
  exact hrun.holds around events ⟨Cache.every_empty, Cache.every_empty⟩

/-- **After every run, a path without a boundary root is held against the files beside it by its last
segment alone**, unless it is the root of the tree. -/
theorem Timeline.Reaches.seesNameAlone {t : Timeline} {around : Surroundings} {s : Session Watch}
    (hs : t.Reaches around s) (now : Surroundings) (target path : Text)
    (hnormal : Path.normalize now target = .ok path)
    (hroot : (s.settledRoot t.disk path none).1 = none) (houtside : s.settings.ignoreOutside = false)
    (hne : path ≠ Path.root) : s.SeesNameAlone t.disk now target path :=
  Session.seesNameAlone_of_sourced hs.sourced.cache hnormal hroot houtside hne

/-! ## With one file on the disk -/

/-- All patterns are held against last segments. -/
def RuleSet.asNames (s : RuleSet) : RuleSet :=
  { s with rules := s.rules.map fun r => { r with basenameOnly := true } }

theorem RuleSet.unscoped_asNames (s : RuleSet) : s.asNames.unscoped = s.unscoped := by
  rw [unscoped, unscoped, asNames, List.map_map]
  rfl

namespace Session

/-- An anchored rule ignores what lies beside its file, as it would by the name. -/
theorem seesNameAlone_beside :
    let t := Timeline.still (.ofFiles [("/r/.aiignore".toList, ["/a?".toList])])
    let around := Surroundings.atRoot
    let s := start ⟨0, [], []⟩ .default (.own false)
    let path := "/r/ab".toList
    t.Reaches around s ∧ Path.normalize around path = .ok path ∧
      (s.settledRoot t.disk path none).1 = none ∧ s.settings.ignoreOutside = false ∧ path ≠ Path.root ∧
      s.SeesNameAlone t.disk around path path ∧
      (s.checkAs RuleSet.asNames t.disk path).ignored? = some true ∧
      (step t.disk around (.check path none) s).answer.ignored? = some true := by
  intro t around s path
  have hs : t.Reaches around s := ⟨⟨0, [], []⟩, .default, .own false, [], rfl⟩
  have hnormal : Path.normalize around path = .ok path := by decide +kernel
  have hroot : (s.settledRoot t.disk path none).1 = none := by decide +kernel
  have hne : path ≠ Path.root := by decide
  have hcheck : (step t.disk around (.check path none) s).answer.ignored? = some true := by
    decide +kernel
  have hname := hs.seesNameAlone around path path hnormal hroot rfl hne
  have hchanged := congrArg Answer.ignored? (hname.changed _ RuleSet.unscoped_asNames)
  rw [Answer.ignored?_unscoped, Answer.ignored?_unscoped, hcheck] at hchanged
  exact ⟨hs, hnormal, hroot, rfl, hne, hname, hchanged, hcheck⟩

/-- **The root of the tree is held against its own file, and there the scope of a rule decides.** The
rule ignores it from its directory and not by its name, which is empty. -/
theorem not_seesNameAlone_root :
    let t := Timeline.still (.ofFiles [("/.aiignore".toList, ["/?".toList])])
    let around := Surroundings.atRoot
    let s := start ⟨0, [], []⟩ .default (.own false)
    t.Reaches around s ∧ Path.normalize around Path.root = .ok Path.root ∧
      (s.settledRoot t.disk Path.root none).1 = none ∧ s.settings.ignoreOutside = false ∧
      (s.checkAs RuleSet.asNames t.disk Path.root).ignored? = some false ∧
      (step t.disk around (.check Path.root none) s).answer.ignored? = some true ∧
      ¬ s.SeesNameAlone t.disk around Path.root Path.root := by
  intro t around s
  have hcheck : (step t.disk around (.check Path.root none) s).answer.ignored? = some true := by
    decide +kernel
  have hnames : (s.checkAs RuleSet.asNames t.disk Path.root).ignored? = some false := by
    decide +kernel
  refine ⟨⟨_, _, _, [], rfl⟩, by decide +kernel, by decide +kernel, rfl, hnames, hcheck, ?_⟩
  intro hname
  have hchanged := congrArg Answer.ignored? (hname.changed _ RuleSet.unscoped_asNames)
  rw [Answer.ignored?_unscoped, Answer.ignored?_unscoped, hnames, hcheck] at hchanged
  cases hchanged

end Session

end PathIgnore
