import PathIgnore.Proofs.Cache.Sourced
import PathIgnore.Proofs.Resolve.Levels
import PathIgnore.Proofs.Resolve.Refused
import PathIgnore.Proofs.Rule.Scope

/-!
# Scans in the directory of a path

Without a boundary root, all files that are consulted for a path lie in the directory that holds it, and
their rules are held against the path and nothing else (`isBeside_of_mem_consultations`). So every rule
sees the last segment of the path, and a scan answers the same whatever its rules say about their scope
(`scanAs_unscoped`).

To say what a scan would answer if rules were others than the files have, `scanAs` changes each rule set
after it is loaded; without a change it is the scan (`scanAs_id`).
-/

namespace PathIgnore

/-- The file lies in the directory that holds the path, and is held against the path alone. -/
structure Consultation.IsBeside (p : Text) (step : Consultation) : Prop where
  directory : Path.dirName step.file = Path.dirName p
  candidates : step.candidates = [⟨p, false⟩]

namespace Resolve

variable {σ : Type} {d : Disk σ} {shown : Diagnostics} {p : Text}

/-- The scan comes to the file, and loading it gives these rules. -/
def Consults (d : Disk σ) (shown : Diagnostics) (plan : List Consultation) (c : Cache) (w : σ)
    (file : Text) (rules : RuleSet) : Prop :=
  ∃ earlier step later, plan = earlier ++ step :: later ∧ step.file = file ∧
    let before := scan d shown earlier c w
    before.answer = .ok none ∧
      (before.cache.load d shown.quiet file before.disk).answer = .ok (some rules)

/-- What a scan answers if every rule set is changed before it is held against anything. -/
def scanAs (change : RuleSet → RuleSet) (d : Disk σ) (shown : Diagnostics) :
    List Consultation → Cache → σ → Except PathFault (Option Rule)
  | [], _, _ => .ok none
  | step :: rest, c, w =>
    let loaded := c.load d shown.quiet step.file w
    match loaded.answer with
    | .error fault => .error fault
    | .ok none => scanAs change d shown rest loaded.cache loaded.disk
    | .ok (some rules) =>
      match (consult shown.debugLog step.file (change rules) step.candidates).1 with
      | some r => .ok (some r)
      | none => scanAs change d shown rest loaded.cache loaded.disk

/-- Without a change it is the scan. -/
theorem scanAs_id (d : Disk σ) (shown : Diagnostics) :
    ∀ (plan : List Consultation) (c : Cache) (w : σ),
      scanAs id d shown plan c w = (scan d shown plan c w).answer
  | [], _, _ => rfl
  | step :: rest, c, w => by
    have hrest := scanAs_id d shown rest (c.load d shown.quiet step.file w).cache
      (c.load d shown.quiet step.file w).disk
    rw [scanAs]
    cases hanswer : (c.load d shown.quiet step.file w).answer with
    | error fault => rw [scan_cons_of_error hanswer]
    | ok found =>
      cases found with
      | none =>
        rw [scan_cons_of_none hanswer]
        exact hrest
      | some rules =>
        dsimp only [id]
        cases hconsult : consult shown.debugLog step.file rules step.candidates with
        | mk decided notices =>
          cases decided with
          | none =>
            rw [scan_cons_of_undecided hanswer hconsult]
            exact hrest
          | some r => rw [scan_cons_of_decided hanswer hconsult]

/-! ## What is consulted -/

/-- **Without a boundary root, the names are looked up in the directory of the path.** -/
theorem consultations_none {s : Discovery} (houtside : s.ignoreOutside = false) (p : Text) :
    consultations s p none =
      s.fileNames.texts.map fun name => ⟨Path.join (Path.dirName p) name, [⟨p, false⟩]⟩ := by
  have hlooked : ¬ ((none : Option Text) = none ∧ s.ignoreOutside = true) := by simp [houtside]
  rw [consultations, if_neg hlooked]
  exact List.append_nil _

theorem isBeside_of_mem_consultations {s : Discovery} (houtside : s.ignoreOutside = false)
    (hp : Path.IsCanonical p) {step : Consultation} (h : step ∈ consultations s p none) :
    step.IsBeside p := by
  rw [consultations_none houtside] at h
  obtain ⟨name, hname, rfl⟩ := List.mem_map.mp h
  have hsegment : Path.IsSegment name := FileNames.isSegment_of_mem_texts hname
  exact ⟨Path.dirName_join (Path.isCanonical_dirName hp) hsegment, rfl⟩

theorem Consults.mem {plan : List Consultation} {c : Cache} {w : σ} {file : Text} {rules : RuleSet}
    (h : Consults d shown plan c w file rules) : ∃ step ∈ plan, step.file = file := by
  obtain ⟨earlier, step, later, rfl, hfile, -⟩ := h
  exact ⟨step, by simp, hfile⟩

/-- The rules that are consulted come from the file. -/
theorem Consults.comesFrom {plan : List Consultation} {c : Cache} {w : σ} {file : Text}
    {rules : RuleSet} (h : Consults d shown plan c w file rules) (hc : c.Sourced) :
    rules.ComesFrom file := by
  obtain ⟨earlier, step, later, -, -, -, hload⟩ := h
  have hbefore : (scan d shown earlier c w).cache.Sourced :=
    (Cache.effect_sourced d).scan shown earlier c w hc
  exact (Cache.loaded d _ _ _ _).comesFrom hbefore hload

/-! ## Scope -/

theorem consult_singleton (debug : Bool) (file : Text) (rules : RuleSet) (candidate : Candidate) :
    (consult debug file rules [candidate]).1 = rules.firstMatch candidate.path candidate.isDirectory := by
  rw [consult]
  split <;> simp_all [consult]

variable {change : RuleSet → RuleSet}

/-- **A file in the directory of a path comes to the same, whatever the scope of its rules.** -/
theorem consult_unscoped (hp : Path.IsCanonical p) (hne : p ≠ Path.root)
    (hchange : ∀ s, (change s).unscoped = s.unscoped) {step : Consultation} (hstep : step.IsBeside p)
    {rules : RuleSet} (hrules : rules.ComesFrom step.file) (debug : Bool) :
    (consult debug step.file (change rules) step.candidates).1.map Rule.unscoped =
      (consult debug step.file rules step.candidates).1.map Rule.unscoped := by
  have hlies : rules.LiesIn (Path.dirName p) := fun r hr => by
    rw [Rule.baseDir, hrules r hr, hstep.directory]
  have hchanged : (change rules).LiesIn (Path.dirName p) := by
    rw [← RuleSet.liesIn_unscoped_iff, hchange, RuleSet.liesIn_unscoped_iff]
    exact hlies
  rw [hstep.candidates, consult_singleton, consult_singleton,
    ← RuleSet.firstMatch_unscoped hp hne hchanged, ← RuleSet.firstMatch_unscoped hp hne hlies, hchange]

/-- **A scan in the directory of a path answers the same, whatever the scope of the rules.** -/
theorem scanAs_unscoped (hp : Path.IsCanonical p) (hne : p ≠ Path.root)
    (hchange : ∀ s, (change s).unscoped = s.unscoped) :
    ∀ (plan : List Consultation) (c : Cache) (w : σ), (∀ step ∈ plan, step.IsBeside p) → c.Sourced →
      (scanAs change d shown plan c w).map (·.map Rule.unscoped) =
        (scanAs id d shown plan c w).map (·.map Rule.unscoped)
  | [], _, _, _, _ => rfl
  | step :: rest, c, w, hplan, hc => by
    have hloaded := Cache.loaded d shown.quiet step.file c w
    have hrest := scanAs_unscoped hp hne hchange rest (c.load d shown.quiet step.file w).cache
      (c.load d shown.quiet step.file w).disk (fun step hstep => hplan step (List.mem_cons_of_mem _ hstep))
      (hloaded.sourced hc)
    rw [scanAs, scanAs]
    cases hanswer : (c.load d shown.quiet step.file w).answer with
    | error fault => rfl
    | ok found =>
      cases found with
      | none => exact hrest
      | some rules =>
        have hconsult := consult_unscoped hp hne hchange (hplan step List.mem_cons_self)
          (hloaded.comesFrom hc hanswer) shown.debugLog
        dsimp only [id]
        cases hdecided : (consult shown.debugLog step.file rules step.candidates).1 with
        | none =>
          rw [hdecided, Option.map_none, Option.map_eq_none_iff] at hconsult
          rw [hconsult]
          exact hrest
        | some r =>
          rw [hdecided, Option.map_some, Option.map_eq_some_iff] at hconsult
          obtain ⟨r', hchanged, hr⟩ := hconsult
          rw [hchanged]
          exact congrArg (fun r => Except.ok (some r)) hr

end Resolve

end PathIgnore
