import PathIgnore.Proofs.Path.Rebase
import PathIgnore.Proofs.Rule.Decisive
import PathIgnore.Rule.Verdict

/-!
# Rules in the directory of a path

A rule is held against the last segment of a path or against the path as seen from the directory of its
file. If the file lies in the directory that holds the path, these are the same text
(`Rule.candidate?_eq_baseName`). So the two flags that tell them apart do not bear on which rule of such
a file decides (`RuleSet.firstMatch_unscoped`). To say so, `unscoped` takes these flags away.

The root of the tree holds itself and has no last segment; it is the one path for which this fails.
-/

namespace PathIgnore

/-! ## What a rule is held against -/

namespace Rule

variable {r : Rule} {p : Text}

/-- The rule, without saying what its pattern is held against. -/
def unscoped (r : Rule) : Rule := { r with basenameOnly := false, anchored := false }

@[simp] theorem unscoped_line (r : Rule) : r.unscoped.line = r.line := rfl

@[simp] theorem unscoped_negated (r : Rule) : r.unscoped.negated = r.negated := rfl

/-- **In the directory of a path, every rule is held against the last segment.** -/
theorem candidate?_eq_baseName (hp : Path.IsCanonical p) (hne : p ≠ Path.root)
    (hdirectory : r.baseDir = Path.dirName p) : r.candidate? p = some (Path.baseName p) := by
  rw [candidate?, hdirectory, Path.relative?_dirName hp hne]
  exact ite_self _

theorem appliesTo_unscoped (hp : Path.IsCanonical p) (hne : p ≠ Path.root)
    (hdirectory : r.baseDir = Path.dirName p) (isDirectory : Bool) :
    r.unscoped.appliesTo p isDirectory = r.appliesTo p isDirectory := by
  have hunscoped : r.unscoped.baseDir = Path.dirName p := hdirectory
  rw [appliesTo, appliesTo, candidate?_eq_baseName hp hne hdirectory,
    candidate?_eq_baseName hp hne hunscoped]
  rfl

end Rule

/-- The report, without saying what the pattern is held against. -/
def Report.unscoped (r : Report) : Report := { r with basenameOnly := false, anchored := false }

/-- The verdict, without saying what the pattern of its rule is held against. -/
def Verdict.unscoped (v : Verdict) : Verdict := { v with rule := v.rule.map Report.unscoped }

/-! ## Rule sets -/

namespace RuleSet

/-- The rule set, without saying what the patterns are held against. -/
def unscoped (s : RuleSet) : RuleSet := { s with rules := s.rules.map Rule.unscoped }

/-- All rules come from files in the directory. -/
def LiesIn (directory : Text) (s : RuleSet) : Prop := ∀ r ∈ s.rules, r.baseDir = directory

theorem liesIn_unscoped_iff {directory : Text} {s : RuleSet} :
    s.unscoped.LiesIn directory ↔ s.LiesIn directory :=
  List.forall_mem_map

/-- **In the directory of a path, the scope of the rules does not bear on which one decides.** -/
theorem firstMatch_unscoped {s : RuleSet} {p : Text} (hp : Path.IsCanonical p) (hne : p ≠ Path.root)
    (hs : s.LiesIn (Path.dirName p)) (isDirectory : Bool) :
    s.unscoped.firstMatch p isDirectory = (s.firstMatch p isDirectory).map Rule.unscoped := by
  have happlies : ∀ r ∈ s.rules, r.unscoped.appliesTo p isDirectory = r.appliesTo p isDirectory :=
    fun r hr => Rule.appliesTo_unscoped hp hne (hs r hr) isDirectory
  rw [firstMatch_eq_decisive, firstMatch_eq_decisive]
  exact decisive_map Rule.unscoped_line Rule.unscoped_negated happlies

end RuleSet

end PathIgnore
