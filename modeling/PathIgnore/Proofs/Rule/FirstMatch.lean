import Mathlib.Data.List.Nodup
import PathIgnore.Proofs.Rule.Decisive

/-!
# The first match, whatever the order

What goes through the rules comes to the same as a definition without order. No rule decides if none
applies or one that applies is negated (`firstMatch_eq_none_iff`). Otherwise a rule on the least line
decides, the first one of these (`firstMatch_eq_some_iff`). Where no two rules share a line, the order of
the rules does not matter (`firstMatch_orderFree`).
-/

namespace PathIgnore.RuleSet

variable {s s' : RuleSet} {path : Text} {isDirectory : Bool} {r : Rule}

/-- No rule that applies is negated. -/
def NoneNegated (s : RuleSet) (path : Text) (isDirectory : Bool) : Prop :=
  ∀ x ∈ s.rules, x.appliesTo path isDirectory = true → x.negated = false

/-- The rule applies, those in front of it that apply stand on later lines, and those behind it that
apply stand on no earlier lines. -/
def IsEarliest (s : RuleSet) (path : Text) (isDirectory : Bool) (r : Rule) : Prop :=
  r.appliesTo path isDirectory = true ∧ ∃ before after, s.rules = before ++ r :: after ∧
    (∀ x ∈ before, x.appliesTo path isDirectory = true → r.line < x.line) ∧
    ∀ x ∈ after, x.appliesTo path isDirectory = true → r.line ≤ x.line

theorem any_negated_applying_iff :
    (applying s.rules path isDirectory).any (·.negated) = true ↔ ¬ s.NoneNegated path isDirectory := by
  simp [applying, NoneNegated]

theorem isLeast_applying_iff {rules : List Rule} :
    isLeast (applying rules path isDirectory) r = true ↔
      ∀ x ∈ rules, x.appliesTo path isDirectory = true → r.line ≤ x.line := by
  rw [isLeast_iff]
  simp [applying]

/-! ## The rule on the least line -/

theorem IsEarliest.mem (h : s.IsEarliest path isDirectory r) : r ∈ s.rules := by
  obtain ⟨-, before, after, hsplit, -⟩ := h
  simp [hsplit]

/-- No rule that applies stands on an earlier line. -/
theorem IsEarliest.line_le (h : s.IsEarliest path isDirectory r) :
    ∀ x ∈ s.rules, x.appliesTo path isDirectory = true → r.line ≤ x.line := by
  obtain ⟨-, before, after, hsplit, hbefore, hafter⟩ := h
  intro x hx happlies
  rw [hsplit, List.mem_append, List.mem_cons] at hx
  rcases hx with hx | rfl | hx
  · exact Int.le_of_lt (hbefore x hx happlies)
  · exact Int.le_refl _
  · exact hafter x hx happlies

/-- **The rule on the least line is the earliest of those that apply.** -/
theorem leastLine_applying_eq_some_iff :
    leastLine (applying s.rules path isDirectory) = some r ↔ s.IsEarliest path isDirectory r := by
  rw [leastLine, applying, List.find?_filter, ← applying, List.find?_eq_some_iff_append]
  simp only [decide_eq_true_eq, Bool.not_eq_true', decide_eq_false_iff_not, not_and,
    isLeast_applying_iff]
  constructor
  · rintro ⟨⟨happlies, hleast⟩, before, after, hsplit, hbefore⟩
    refine ⟨happlies, before, after, hsplit, fun x hx hx' => ?_, fun x hx => hleast x (by simp [hsplit, hx])⟩
    -- A rule in front that stands no later would be least, and it would have been found first.
    by_contra hle
    exact hbefore x hx hx' fun y hy hy' => Int.le_trans (Int.not_lt.mp hle) (hleast y hy hy')
  · intro h
    obtain ⟨happlies, before, after, hsplit, hbefore, -⟩ := id h
    refine ⟨⟨happlies, h.line_le⟩, before, after, hsplit, fun x hx hx' hleast => ?_⟩
    exact Int.not_le.mpr (hbefore x hx hx') (hleast r h.mem happlies)

/-- Among rules there is always one on the least line. -/
theorem isSome_leastLine_cons (a : Rule) (rules : List Rule) : (leastLine (a :: rules)).isSome = true := by
  induction rules generalizing a with
  | nil => simp [leastLine, isLeast]
  | cons b rest ih => rw [leastLine_cons_cons]; exact ih _

/-! ## The first match -/

/-- **The rule that decides is the earliest of those that apply, if none of these is negated.** -/
theorem firstMatch_eq_some_iff :
    s.firstMatch path isDirectory = some r ↔
      s.NoneNegated path isDirectory ∧ s.IsEarliest path isDirectory r := by
  rw [firstMatch_eq_decisive, decisive, ← leastLine_applying_eq_some_iff]
  split
  · next hany => simp [any_negated_applying_iff.mp hany]
  · next hany => simp [not_not.mp (mt any_negated_applying_iff.mpr hany)]

/-- **No rule decides if none applies, or if one that applies is negated.** -/
theorem firstMatch_eq_none_iff :
    s.firstMatch path isDirectory = none ↔
      (∀ x ∈ s.rules, x.appliesTo path isDirectory = false) ∨
        ∃ x ∈ s.rules, x.appliesTo path isDirectory = true ∧ x.negated = true := by
  rw [firstMatch_eq_decisive, decisive]
  split
  · next hany => exact iff_of_true rfl (.inr (by simpa [applying, and_assoc] using hany))
  · next hany =>
    rw [or_iff_left (by simpa [applying, and_assoc] using hany)]
    cases happlying : applying s.rules path isDirectory with
    | nil => exact iff_of_true rfl (by simpa [applying] using happlying)
    | cons a rest =>
      have ha : a ∈ applying s.rules path isDirectory := happlying ▸ List.mem_cons_self
      obtain ⟨hmem, happlies⟩ := List.mem_filter.mp ha
      refine iff_of_false ?_ fun hnone => ?_
      · exact Option.isSome_iff_ne_none.mp (isSome_leastLine_cons a rest)
      · rw [hnone a hmem] at happlies
        cases happlies

/-! ## Rules in another order -/

/-- Where no two rules share a line, the earliest of those that apply is the one on the least line. -/
theorem isEarliest_iff_of_nodup (hlines : (s.rules.map (·.line)).Nodup) :
    s.IsEarliest path isDirectory r ↔ r ∈ s.rules ∧ r.appliesTo path isDirectory = true ∧
      ∀ x ∈ s.rules, x.appliesTo path isDirectory = true → r.line ≤ x.line := by
  constructor
  · exact fun h => ⟨h.mem, h.1, h.line_le⟩
  · rintro ⟨hmem, happlies, hleast⟩
    obtain ⟨before, after, hsplit⟩ := List.append_of_mem hmem
    refine ⟨happlies, before, after, hsplit, fun x hx hx' => ?_, fun x hx => hleast x (by simp [hsplit, hx])⟩
    rw [hsplit, List.map_append, List.map_cons] at hlines
    have hdisjoint := List.disjoint_of_nodup_append hlines
    refine Int.lt_iff_le_and_ne.mpr ⟨hleast x (by simp [hsplit, hx]) hx', fun heq => ?_⟩
    exact hdisjoint (List.mem_map_of_mem hx) (heq ▸ List.mem_cons_self)

theorem firstMatch_eq_of_perm (hperm : s.rules.Perm s'.rules) (hlines : (s.rules.map (·.line)).Nodup) :
    s.firstMatch path isDirectory = s'.firstMatch path isDirectory := by
  have hlines' : (s'.rules.map (·.line)).Nodup := (hperm.map _).nodup_iff.mp hlines
  refine Option.ext fun r => ?_
  rw [firstMatch_eq_some_iff, firstMatch_eq_some_iff, isEarliest_iff_of_nodup hlines,
    isEarliest_iff_of_nodup hlines', NoneNegated, NoneNegated]
  simp only [hperm.mem_iff]

/--
**The first match is what a definition without order says.** No rule decides if none applies or a negated
one does; else the one on the least line does, the first of these; and where no two rules share a line,
rules in another order come to the same.
-/
theorem firstMatch_orderFree (s : RuleSet) (path : Text) (isDirectory : Bool) :
    (s.firstMatch path isDirectory = none ↔
      (∀ x ∈ s.rules, x.appliesTo path isDirectory = false) ∨
        ∃ x ∈ s.rules, x.appliesTo path isDirectory = true ∧ x.negated = true) ∧
    (∀ r, s.firstMatch path isDirectory = some r ↔
      s.NoneNegated path isDirectory ∧ s.IsEarliest path isDirectory r) ∧
    ∀ s' : RuleSet, s.rules.Perm s'.rules → (s.rules.map (·.line)).Nodup →
      s.firstMatch path isDirectory = s'.firstMatch path isDirectory :=
  ⟨firstMatch_eq_none_iff, fun _ => firstMatch_eq_some_iff, fun _ => firstMatch_eq_of_perm⟩

/-- Upside down, with a negated rule that does not apply between two rules that do. -/
theorem firstMatch_orderFree_reversed :
    let s := ofLines "/r/.aiignore".toList ["x*".toList, "!y".toList, "*.c".toList]
    let path := "/r/x.c".toList
    (s.rules.reverse.Perm s.rules ∧ (s.rules.reverse.map (·.line)).Nodup) ∧
      (⟨s.source, s.rules.reverse, []⟩ : RuleSet).firstMatch path false = s.firstMatch path false ∧
      (s.firstMatch path false).map (·.line) = some 1 := by
  intro s path
  have hlines : (s.rules.reverse.map (·.line)).Nodup := by decide +kernel
  exact ⟨⟨List.reverse_perm _, hlines⟩,
    (firstMatch_orderFree ⟨s.source, s.rules.reverse, []⟩ path false).2.2 s (List.reverse_perm _) hlines,
    by decide +kernel⟩

end PathIgnore.RuleSet
