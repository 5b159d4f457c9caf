import PathIgnore.Proofs.Rule.Lines

/-!
# Edits of a file

Whether a rule of a file decides about a path does not hang on the order of the lines
(`isSome_decisive_ofLines_iff`): some rule has to apply, and none that applies may be negated. So lines
may change places, a further rule that is not negated takes no decision away, and a further one that is
negated gives none.
-/

namespace PathIgnore

/-- Some rule is on the line, negated or not as told. -/
def Line.GivesRule (negated : Bool) (raw : Text) : Prop :=
  ∃ source line r, Rule.ofLine source line raw = .ok (some r) ∧ r.negated = negated

/-- The line is blank, a comment or does not compile. -/
def Line.GivesNoRule (raw : Text) : Prop :=
  ∃ source line, ∀ r, Rule.ofLine source line raw ≠ .ok (some r)

theorem Line.GivesRule.exists_ofLine? {negated : Bool} {raw : Text} (h : GivesRule negated raw)
    (source : Text) (line : Int) :
    ∃ r, Rule.ofLine? source line raw = some r ∧ r.negated = negated := by
  obtain ⟨source', line', r, hline, hnegated⟩ := h
  rw [← Rule.ofLine?_eq_some_iff] at hline
  exact ⟨r.placed source line, by rw [Rule.ofLine?_placed source' source line' line, hline]; rfl,
    hnegated⟩

theorem Line.GivesNoRule.ofLine?_eq_none {raw : Text} (h : GivesNoRule raw) (source : Text)
    (line : Int) : Rule.ofLine? source line raw = none := by
  obtain ⟨source', line', hline⟩ := h
  have hnone : Rule.ofLine? source' line' raw = none := by
    rw [Option.eq_none_iff_forall_ne_some]
    exact fun r hr => hline r (Rule.ofLine?_eq_some_iff.mp hr)
  rw [Rule.ofLine?_placed source' source line' line, hnone]
  rfl

/-- The new lines are the old ones and somewhere among them one of this kind. -/
def Inserts (kind : Text → Prop) (old new : List Text) : Prop :=
  ∃ before raw after, kind raw ∧ old = before ++ after ∧ new = before ++ raw :: after

namespace RuleSet

/-- The rules that the lines give one by one. -/
def given (source : Text) (lines : List Text) : List Rule := lines.filterMap (Rule.ofLine? source 0)

variable {source path : Text} {lines old new : List Text} {isDirectory : Bool}

/-! ## Whether a rule decides -/

theorem isSome_foremost_iff {rules : List Rule} :
    (foremost rules).isSome = true ↔ (∃ r, r ∈ rules) ∧ ∀ r ∈ rules, r.negated = false := by
  rw [foremost]
  by_cases hany : rules.any (·.negated) = true
  · obtain ⟨r, hr, hnegated⟩ := List.any_eq_true.mp hany
    rw [if_pos hany]
    refine iff_of_false Bool.false_ne_true fun h => ?_
    rw [h.2 r hr] at hnegated
    cases hnegated
  · have hnone : ∀ r ∈ rules, r.negated = false := fun r hr =>
      Bool.eq_false_iff.mpr fun hnegated => hany (List.any_eq_true.mpr ⟨r, hr, hnegated⟩)
    rw [if_neg hany, List.isSome_head?]
    constructor
    · exact fun hne => ⟨List.exists_mem_of_ne_nil rules hne, hnone⟩
    · rintro ⟨⟨r, hr⟩, -⟩
      exact List.ne_nil_of_mem hr

/-- **A file decides if a rule applies and none that applies is negated**, whatever the order. -/
theorem isSome_decisive_ofLines_iff :
    ((ofLines source lines).decisive path isDirectory).isSome = true ↔
      (∃ r ∈ given source lines, r.appliesTo path isDirectory = true) ∧
        ∀ r ∈ given source lines, r.appliesTo path isDirectory = true → r.negated = false := by
  rw [← Option.isSome_map (f := Rule.placed source 0), map_placed_decisive_ofLines,
    isSome_foremost_iff, ← given]
  simp only [applying, List.mem_filter, and_imp]

/-! ## Edits -/

theorem isSome_decisive_of_perm (h : old.Perm new) :
    ((ofLines source new).decisive path isDirectory).isSome =
      ((ofLines source old).decisive path isDirectory).isSome := by
  have hmem : ∀ r, r ∈ given source new ↔ r ∈ given source old := fun r =>
    (h.symm.filterMap _).mem_iff
  rw [Bool.eq_iff_iff, isSome_decisive_ofLines_iff, isSome_decisive_ofLines_iff]
  simp only [hmem]

theorem exists_given_of_inserts (source : Text) {negated : Bool}
    (h : Inserts (Line.GivesRule negated) old new) :
    ∃ r : Rule, r.negated = negated ∧
      ∀ x, x ∈ given source new ↔ x = r ∨ x ∈ given source old := by
  obtain ⟨before, raw, after, hraw, rfl, rfl⟩ := h
  obtain ⟨r, hline, hnegated⟩ := hraw.exists_ofLine? source 0
  refine ⟨r, hnegated, fun x => ?_⟩
  rw [given, given, List.filterMap_append, List.filterMap_append, List.filterMap_cons_some hline]
  simp only [List.mem_append, List.mem_cons]
  exact or_left_comm

/-- **A further rule that is not negated takes no decision away.** -/
theorem isSome_decisive_of_inserts (h : Inserts (Line.GivesRule false) old new)
    (hold : ((ofLines source old).decisive path isDirectory).isSome = true) :
    ((ofLines source new).decisive path isDirectory).isSome = true := by
  obtain ⟨added, hadded, hmem⟩ := exists_given_of_inserts source h
  rw [isSome_decisive_ofLines_iff] at hold ⊢
  obtain ⟨⟨r, hr, happlies⟩, hnone⟩ := hold
  refine ⟨⟨r, (hmem r).mpr (.inr hr), happlies⟩, fun x hx hx' => ?_⟩
  rcases (hmem x).mp hx with rfl | hx
  · exact hadded
  · exact hnone x hx hx'

/-- **A further rule that is negated gives no decision.** -/
theorem isSome_decisive_of_inserts_negated (h : Inserts (Line.GivesRule true) old new)
    (hnew : ((ofLines source new).decisive path isDirectory).isSome = true) :
    ((ofLines source old).decisive path isDirectory).isSome = true := by
  obtain ⟨added, hadded, hmem⟩ := exists_given_of_inserts source h
  rw [isSome_decisive_ofLines_iff] at hnew ⊢
  obtain ⟨⟨r, hr, happlies⟩, hnone⟩ := hnew
  refine ⟨?_, fun x hx => hnone x ((hmem x).mpr (.inr hx))⟩
  rcases (hmem r).mp hr with rfl | hold
  · -- The rule that applies cannot be the one that was added.
    have hkept := hnone r hr happlies
    rw [hadded] at hkept
    cases hkept
  · exact ⟨r, hold, happlies⟩

theorem map_raw_decisive_ofLines :
    ((ofLines source lines).decisive path isDirectory).map (·.raw) =
      (foremost (applying (given source lines) path isDirectory)).map (·.raw) := by
  rw [given, ← map_placed_decisive_ofLines, Option.map_map]
  rfl

/-- **A further line without a rule changes nothing but places.** -/
theorem map_raw_decisive_of_inserts (h : Inserts Line.GivesNoRule old new) :
    ((ofLines source new).decisive path isDirectory).map (·.raw) =
      ((ofLines source old).decisive path isDirectory).map (·.raw) := by
  obtain ⟨before, raw, after, hraw, rfl, rfl⟩ := h
  have hgiven : given source (before ++ raw :: after) = given source (before ++ after) := by
    rw [given, given, List.filterMap_append, List.filterMap_append,
      List.filterMap_cons_none (hraw.ofLine?_eq_none source 0)]
  rw [map_raw_decisive_ofLines, map_raw_decisive_ofLines, hgiven]

end RuleSet

end PathIgnore
