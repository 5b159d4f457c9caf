import PathIgnore.Settings.Logging

/-!
# Plans for reports

A plan that is made from whatever source reports events from a level on that has a name, and renders an event
once, in its last step (`LoggingPlan.isWellFormed_of_ofSource`). There is none only where the name of the
level cannot be written out, or stands for something that is no level
(`LoggingPlan.ofSource_eq_error_iff`).

Small letters in the name of a level are as good as capitals (`LoggingPlan.levelOfName_of_mem`).
-/

namespace PathIgnore

/-- The step makes a line of an event. -/
def LogStep.renders : LogStep → Bool
  | renderJson | renderConsole => true
  | _ => false

namespace LoggingPlan

/-- Events are reported from a level on that has a name, and are rendered once, at last. -/
structure IsWellFormed (p : LoggingPlan) : Prop where
  level : p.level ∈ levels.map (·.2)
  steps : ∃ last, last.renders = true ∧ p.steps = commonSteps ++ [last]

/-! ## Levels -/

theorem levelOfName_mem {name : Text} {level : Nat} (h : levelOfName name = .ok level) :
    level ∈ levels.map (·.2) := by
  unfold levelOfName at h
  dsimp only at h
  split at h
  · cases h
  · cases h
    cases hlookup : levels.lookup (name.flatMap upperCase) with
    | none => decide
    | some level =>
      obtain ⟨earlier, later, hlevels, -⟩ := List.lookup_eq_some_iff.mp hlookup
      rw [hlevels]
      simp

theorem levelOfName_eq_error_iff {name : Text} {fault : LoggingFault} :
    levelOfName name = .error fault ↔
      name.flatMap upperCase ∈ otherNames ∧ fault = .noLevel (name.flatMap upperCase) := by
  unfold levelOfName
  dsimp only
  split
  · next hother => simp [hother, eq_comm]
  · next hother => simp [hother]

/-- A letter is what its capital is. -/
theorem upperCase_eq {c : Char} (h : c.toUpper.isUpper = true) : upperCase c = [c.toUpper] := by
  unfold upperCase
  split
  · next hc =>
    subst hc
    cases h
  · split
    · next hc =>
      subst hc
      cases h
    · split
      · next hc => rcases hc with rfl | rfl <;> cases h
      · rfl

/-- **A level goes by its name, in small letters and in capitals.** -/
theorem levelOfName_of_mem {name t : Text} {level : Nat} (h : (name, level) ∈ levels)
    (ht : t.map Char.toUpper = name) : levelOfName t = .ok level := by
  have hletters : ∀ named ∈ levels, named.1.all Char.isUpper = true := by decide
  have hupper : t.flatMap upperCase = name := by
    have hsingle : t.map upperCase = t.map fun c => [c.toUpper] := List.map_congr_left fun c hc =>
      upperCase_eq (List.all_eq_true.mp (hletters _ h) _ (ht ▸ List.mem_map_of_mem hc))
    rw [← ht, List.map_eq_flatMap, List.flatMap_def, List.flatMap_def, hsingle]
  have hnamed : ∀ named ∈ levels, named.1 ∉ otherNames ∧ levels.lookup named.1 = some named.2 := by
    decide
  obtain ⟨hlevel, hlookup⟩ := hnamed _ h
  rw [levelOfName, hupper, if_neg hlevel, hlookup]
  rfl

example : (levelOfName "Warn".toList).toOption = some 30 := by decide +kernel

variable {s : LoggingSource}

theorem mem_of_levelOf {level : Nat} (h : levelOf s = .ok level) : level ∈ levels.map (·.2) := by
  unfold levelOf at h
  split at h
  · cases h
  · split at h
    · cases h
      decide
    · exact levelOfName_mem h

theorem levelOf_eq_error_iff {fault : LoggingFault} :
    levelOf s = .error fault ↔
      levelName? s.logLevel = none ∧ fault = .longInteger ∨
        s.debugging = false ∧ ∃ name, levelName? s.logLevel = some name ∧
          name.flatMap upperCase ∈ otherNames ∧ fault = .noLevel (name.flatMap upperCase) := by
  unfold levelOf
  cases levelName? s.logLevel with
  | none =>
    constructor
    · rintro ⟨⟩
      exact .inl ⟨rfl, rfl⟩
    · rintro (⟨-, rfl⟩ | ⟨-, name, hname, -⟩)
      · rfl
      · cases hname
  | some name =>
    cases s.debugging with
    | true => simp
    | false =>
      simp only [levelOfName_eq_error_iff, Bool.false_eq_true, if_false, reduceCtorEq, false_and, false_or,
        true_and, Option.some.injEq, exists_eq_left']

/-! ## Plans -/

/-- **Every plan reports from a level on that has a name, and renders an event once, at last.** -/
theorem isWellFormed_of_ofSource {p : LoggingPlan} (h : ofSource s = .ok p) : p.IsWellFormed := by
  unfold ofSource at h
  cases hlevel : levelOf s with
  | error fault =>
    rw [hlevel] at h
    cases h
  | ok level =>
    rw [hlevel] at h
    cases h
    refine ⟨mem_of_levelOf hlevel, _, ?_, rfl⟩
    split <;> rfl

/-- **There is no plan only for the name of its level.** It cannot be written out, or without debugging it
stands for something that is no level. -/
theorem ofSource_eq_error_iff {fault : LoggingFault} :
    ofSource s = .error fault ↔
      levelName? s.logLevel = none ∧ fault = .longInteger ∨
        s.debugging = false ∧ ∃ name, levelName? s.logLevel = some name ∧
          name.flatMap upperCase ∈ otherNames ∧ fault = .noLevel (name.flatMap upperCase) := by
  rw [← levelOf_eq_error_iff, ofSource]
  cases levelOf s <;> simp [Except.map]

/-- So settings have a plan unless they name something that is no level. -/
theorem exists_ofDiagnostics_iff (d : Diagnostics) :
    (∃ p, ofDiagnostics d = .ok p) ↔
      d.debugLog = true ∨ d.logLevel.flatMap upperCase ∉ otherNames := by
  have hname : ∃ name, levelName? (some (.text d.logLevel)) = some name ∧
      (name.flatMap upperCase ∈ otherNames ↔ d.logLevel.flatMap upperCase ∈ otherNames) := by
    cases hlevel : d.logLevel with
    | nil => exact ⟨_, rfl, by decide⟩
    | cons c rest => exact ⟨_, rfl, Iff.rfl⟩
  obtain ⟨name, hname, hother⟩ := hname
  have hfault : (∃ fault, ofDiagnostics d = .error fault) ↔
      d.debugLog = false ∧ d.logLevel.flatMap upperCase ∈ otherNames := by
    simp only [ofDiagnostics, ofSource_eq_error_iff, hname, ← hother, LoggingSource.debugging,
      Option.any_some, Value.isEmpty, Bool.not_not, reduceCtorEq, false_and, false_or, Option.some.injEq,
      exists_eq_left', exists_and_left, exists_eq, and_true]
  have hplan : (∃ p, ofDiagnostics d = .ok p) ↔ ¬ ∃ fault, ofDiagnostics d = .error fault := by
    cases ofDiagnostics d <;> simp
  rw [hplan, hfault, Decidable.not_and_iff_not_or_not, Bool.not_eq_false]

end LoggingPlan

end PathIgnore
