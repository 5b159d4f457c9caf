import PathIgnore.Rule.Basic

/-!
# Rule sets

The rules of one ignore file. Every line is read by itself, so a line that does not compile costs
nothing but its own rule.

`firstMatch` is the rule that decides about a path: the one on the earliest line that applies. A
negated rule that applies, wherever it stands, keeps the path, and then no rule of the file decides.
-/

namespace PathIgnore

/-- The rules of an ignore file and the lines that do not compile. -/
structure RuleSet where
  source : Text
  rules : List Rule
  errors : List RuleError

namespace RuleSet

/-- The earlier of two lines; the one found first at a tie. -/
def earlier : Option Rule → Rule → Rule
  | none, r => r
  | some best, r => if r.line < best.line then r else best

/-- Goes through the rules with the best one so far. -/
def scan (path : Text) (isDirectory : Bool) : Option Rule → List Rule → Option Rule
  | best, [] => best
  | best, r :: rest =>
    if r.appliesTo path isDirectory then
      if r.negated then none else scan path isDirectory (some (earlier best r)) rest
    else scan path isDirectory best rest

/-- The rule of the set that decides about the path. -/
def firstMatch (s : RuleSet) (path : Text) (isDirectory : Bool) : Option Rule :=
  scan path isDirectory none s.rules

/-- Reads the lines, the first of which has the number `n`. -/
def readFrom (source : Text) : Nat → List Text → List Rule × List RuleError
  | _, [] => ([], [])
  | n, raw :: rest =>
    let (rules, errors) := readFrom source (n + 1) rest
    match Rule.ofLine source n raw with
    | .ok none => (rules, errors)
    | .ok (some r) => (r :: rules, errors)
    | .error e => (rules, e :: errors)

/-- The rule set of a file with these lines; the first line has the number one. -/
def ofLines (source : Text) (lines : List Text) : RuleSet :=
  let (rules, errors) := readFrom source 1 lines
  ⟨source, rules, errors⟩

/-- The rules on numbered lines, in the order given. The first bad line fails. -/
def readNumbered (source : Text) : List (Int × Text) → Except RuleError (List Rule)
  | [] => .ok []
  | (n, raw) :: rest =>
    match Rule.ofLine source n raw with
    | .error e => .error e
    | .ok r => (readNumbered source rest).map (r.toList ++ ·)

/-- The rule set of numbered lines, which need not ascend. -/
def ofNumbered (source : Text) (lines : List (Int × Text)) : Except RuleError RuleSet :=
  (readNumbered source lines).map fun rules => ⟨source, rules, []⟩

/-- What decides is a rule of the set that applies and does not negate. -/
theorem of_scan {path : Text} {isDirectory : Bool} {best : Option Rule} {rules : List Rule} {r : Rule}
    (h : scan path isDirectory best rules = some r) :
    best = some r ∨ r ∈ rules ∧ r.appliesTo path isDirectory = true ∧ r.negated = false := by
  induction rules generalizing best with
  | nil => exact .inl h
  | cons s rest ih =>
    unfold scan at h
    split at h
    · next happlies =>
      split at h
      · cases h
      · next hnegated =>
        rcases ih h with hbest | ⟨hmem, hrest⟩
        · have hearlier : earlier best s = r := by simpa using hbest
          unfold earlier at hearlier
          split at hearlier
          · subst hearlier
            exact .inr ⟨List.mem_cons_self, happlies, by simpa using hnegated⟩
          · split at hearlier
            · subst hearlier
              exact .inr ⟨List.mem_cons_self, happlies, by simpa using hnegated⟩
            · subst hearlier
              exact .inl rfl
        · exact .inr ⟨List.mem_cons_of_mem _ hmem, hrest⟩
    · rcases ih h with hbest | ⟨hmem, hrest⟩
      · exact .inl hbest
      · exact .inr ⟨List.mem_cons_of_mem _ hmem, hrest⟩

theorem of_firstMatch {s : RuleSet} {path : Text} {isDirectory : Bool} {r : Rule}
    (h : s.firstMatch path isDirectory = some r) :
    r ∈ s.rules ∧ r.appliesTo path isDirectory = true ∧ r.negated = false := by
  rcases of_scan h with hnone | hrest
  · cases hnone
  · exact hrest

end RuleSet

end PathIgnore
