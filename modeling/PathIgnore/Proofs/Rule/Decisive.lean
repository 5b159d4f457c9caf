import PathIgnore.Rule.RuleSet

/-!
# The rule that decides

`firstMatch` goes through the rules once and gives up at the first negated rule that applies. What it
comes to hangs on the rules that apply, taken together: none decides if one of them is negated, and
else the one on the least line (`firstMatch_eq_decisive`).
-/

namespace PathIgnore.RuleSet

/-- The rules that apply to the path. -/
def applying (rules : List Rule) (path : Text) (isDirectory : Bool) : List Rule :=
  rules.filter fun r => r.appliesTo path isDirectory

/-- Whether no rule stands on an earlier line. -/
def isLeast (rules : List Rule) (r : Rule) : Bool := rules.all fun other => r.line ≤ other.line

/-- The first rule that stands on the least line. -/
def leastLine (rules : List Rule) : Option Rule := rules.find? (isLeast rules)

/-- The rule on the least line of those that apply, unless one of these is negated. -/
def decisive (s : RuleSet) (path : Text) (isDirectory : Bool) : Option Rule :=
  if (applying s.rules path isDirectory).any (·.negated) then none
  else leastLine (applying s.rules path isDirectory)

/-! ## Changed rules -/

section Changed

variable {f : Rule → Rule}

theorem applying_map {rules : List Rule} {path path' : Text} {isDirectory : Bool}
    (hf : ∀ r ∈ rules, (f r).appliesTo path' isDirectory = r.appliesTo path isDirectory) :
    applying (rules.map f) path' isDirectory = (applying rules path isDirectory).map f := by
  rw [applying, applying, List.filter_map]
  exact congrArg (List.map f) (List.filter_congr hf)

theorem any_negated_map (hf : ∀ r, (f r).negated = r.negated) (rules : List Rule) :
    (rules.map f).any (·.negated) = rules.any (·.negated) := by
  rw [List.any_map]
  exact congrArg (rules.any ·) (funext hf)

theorem leastLine_map (hf : ∀ r, (f r).line = r.line) (rules : List Rule) :
    leastLine (rules.map f) = (leastLine rules).map f := by
  have hleast : isLeast (rules.map f) ∘ f = isLeast rules := by
    funext r
    rw [Function.comp_apply, isLeast, isLeast, List.all_map, hf]
    exact congrArg (rules.all ·) (funext fun other => by rw [Function.comp_apply, hf])
  rw [leastLine, leastLine, List.find?_map, hleast]

/-- **Where lines and negation stay and the same rules apply, the same rule decides.** -/
theorem decisive_map (hline : ∀ r, (f r).line = r.line) (hnegated : ∀ r, (f r).negated = r.negated)
    {s : RuleSet} {path path' : Text} {isDirectory : Bool}
    (happlies : ∀ r ∈ s.rules, (f r).appliesTo path' isDirectory = r.appliesTo path isDirectory) :
    { s with rules := s.rules.map f }.decisive path' isDirectory =
      (s.decisive path isDirectory).map f := by
  rw [decisive, decisive, applying_map happlies, any_negated_map hnegated, leastLine_map hline]
  split <;> rfl

end Changed

/-! ## The least line -/

theorem isLeast_iff {rules : List Rule} {r : Rule} :
    isLeast rules r = true ↔ ∀ other ∈ rules, r.line ≤ other.line := by
  simp [isLeast]

/-- The later of two lines does not bear on what is least. -/
theorem isLeast_cons_cons {a b : Rule} (hle : a.line ≤ b.line) (rules : List Rule) :
    isLeast (a :: b :: rules) = isLeast (a :: rules) := by
  funext r
  rw [Bool.eq_iff_iff, isLeast_iff, isLeast_iff]
  simp only [List.forall_mem_cons]
  constructor
  · exact fun ⟨ha, _, hrest⟩ => ⟨ha, hrest⟩
  · exact fun ⟨ha, hrest⟩ => ⟨ha, Int.le_trans ha hle, hrest⟩

theorem isLeast_cons_comm (a b : Rule) (rules : List Rule) :
    isLeast (a :: b :: rules) = isLeast (b :: a :: rules) := by
  funext r
  rw [Bool.eq_iff_iff, isLeast_iff, isLeast_iff]
  simp only [List.forall_mem_cons]
  exact and_left_comm

theorem leastLine_cons_cons (a b : Rule) (rules : List Rule) :
    leastLine (a :: b :: rules) = leastLine (earlier (some a) b :: rules) := by
  rw [earlier, leastLine]
  by_cases hlt : b.line < a.line
  · have hfirst : ¬ isLeast (b :: rules) a = true := by
      rw [isLeast_iff]
      exact fun hall => Int.not_le.mpr hlt (hall b List.mem_cons_self)
    rw [if_pos hlt, isLeast_cons_comm, isLeast_cons_cons (Int.le_of_lt hlt),
      List.find?_cons_of_neg hfirst, leastLine]
  · have hle := Int.not_lt.mp hlt
    rw [if_neg hlt, isLeast_cons_cons hle, leastLine]
    by_cases hfirst : isLeast (a :: rules) a = true
    · rw [List.find?_cons_of_pos hfirst, List.find?_cons_of_pos hfirst]
    · -- If the second line were least, the first one would be as well.
      have hsecond : ¬ isLeast (a :: rules) b = true := by
        intro hb
        rw [isLeast_iff] at hfirst hb
        exact hfirst fun other hother => Int.le_trans hle (hb other hother)
      rw [List.find?_cons_of_neg hfirst, List.find?_cons_of_neg hsecond, List.find?_cons_of_neg hfirst]

/-- **Keeping the earlier of two lines all along finds the least one.** -/
theorem foldl_earlier_eq_leastLine (a : Rule) (rules : List Rule) :
    rules.foldl (fun best r => some (earlier best r)) (some a) = leastLine (a :: rules) := by
  induction rules generalizing a with
  | nil => simp [leastLine, isLeast]
  | cons b rest ih => rw [List.foldl_cons, ih, leastLine_cons_cons]

/-! ## Scans -/

variable {path : Text} {isDirectory : Bool}

theorem scan_eq_foldl (best : Option Rule) (rules : List Rule) :
    scan path isDirectory best rules =
      if (applying rules path isDirectory).any (·.negated) then none
      else (applying rules path isDirectory).foldl (fun best r => some (earlier best r)) best := by
  induction rules generalizing best with
  | nil => rfl
  | cons r rest ih =>
    rw [scan]
    by_cases happlies : r.appliesTo path isDirectory = true
    · have hcons : applying (r :: rest) path isDirectory = r :: applying rest path isDirectory :=
        List.filter_cons_of_pos happlies
      rw [if_pos happlies, hcons, List.any_cons]
      by_cases hnegated : r.negated = true
      · rw [if_pos hnegated, hnegated, Bool.true_or, if_pos rfl]
      · rw [if_neg hnegated, Bool.eq_false_iff.mpr hnegated, Bool.false_or, ih, List.foldl_cons]
    · have hcons : applying (r :: rest) path isDirectory = applying rest path isDirectory :=
        List.filter_cons_of_neg happlies
      rw [if_neg happlies, hcons, ih]

/-- **The rule that decides is the one on the least line, unless a negated one applies.** -/
theorem firstMatch_eq_decisive (s : RuleSet) (path : Text) (isDirectory : Bool) :
    s.firstMatch path isDirectory = s.decisive path isDirectory := by
  rw [firstMatch, scan_eq_foldl, decisive]
  cases applying s.rules path isDirectory with
  | nil => rfl
  | cons a rest => rw [List.foldl_cons, earlier, foldl_earlier_eq_leastLine]

end PathIgnore.RuleSet
