import PathIgnore.Glob.Basic
import PathIgnore.Path.Basic
import PathIgnore.Rule.Line

/-!
# Rules

A rule is one line of an ignore file, compiled. It knows the file and the line that it comes from,
and it holds its pattern against a path: against the last segment alone, or against the path as seen
from the directory of the file.

A report names a rule without its compiled pattern.
-/

namespace PathIgnore

/-- What there is to say about a rule. -/
structure Report extends Flags where
  source : Text
  line : Int
  raw : Text
  pattern : Text
  deriving DecidableEq, Repr

/-- Where the rule stands and how it is written. -/
def Report.describe (r : Report) : String :=
  String.ofList r.source ++ ":" ++ toString r.line ++ ": '" ++ String.ofList r.raw ++ "'"

/-- A line whose pattern does not compile. -/
structure RuleError where
  source : Text
  line : Int
  raw : Text
  cause : Glob.PatternError
  deriving DecidableEq, Repr

namespace RuleError

/-- The fault, naming the pattern that is left of the line. -/
def message (e : RuleError) : String :=
  "Failed to parse pattern: '" ++ String.ofList e.cause.pattern ++ "'"

/-- The fault with its place and its cause. -/
def describe (e : RuleError) : String :=
  String.ofList e.source ++ ":" ++ toString e.line ++ ": " ++ e.message ++
    " (" ++ e.cause.message ++ ")"

end RuleError

/-- One line of an ignore file, compiled. -/
structure Rule extends Flags where
  source : Text
  line : Int
  raw : Text
  glob : Glob
  deriving DecidableEq

namespace Rule

/-- The rule on a line, if there is one. -/
def ofLine (source : Text) (line : Int) (raw : Text) : Except RuleError (Option Rule) :=
  match Line.ofText? raw with
  | none => .ok none
  | some parts =>
    match Glob.compile parts.pattern with
    | .error cause => .error ⟨source, line, raw, cause⟩
    | .ok glob => .ok (some { parts.toFlags with source, line, raw, glob })

/-- The directory of the rule's file. -/
def baseDir (r : Rule) : Text := Path.dirName r.source

/-- What the pattern is held against for a path; nothing if the path is out of scope. -/
def candidate? (r : Rule) (path : Text) : Option Text :=
  if r.basenameOnly then some (Path.baseName path) else Path.relative? r.baseDir path

/-- Whether the rule applies to the path. -/
def appliesTo (r : Rule) (path : Text) (isDirectory : Bool) : Bool :=
  (!r.directoryOnly || isDirectory) && (r.candidate? path).any r.glob.accepts

/-- The report on the rule. -/
def report (r : Rule) : Report :=
  { r.toFlags with source := r.source, line := r.line, raw := r.raw, pattern := r.glob.pattern }

/-- The rule in one line, with its restrictions. -/
def describe (r : Rule) : String :=
  "Rule@" ++ r.report.describe ++
    (if r.negated then " [negated]" else "") ++
    (if r.directoryOnly then " [only directory]" else "") ++
    (if r.basenameOnly then " [no directory]" else "")

/-- A line without a rule gives none, and any other gives a rule or an error. -/
theorem ofLine_eq_ok_none_iff {source raw : Text} {line : Int} :
    ofLine source line raw = .ok none ↔ Line.isSkipped raw = true := by
  rw [← Line.ofText?_eq_none_iff]
  unfold ofLine
  split
  · next h => simp [h]
  · next h => split <;> simp [h]

/-- What a rule keeps of its line. -/
theorem eq_of_ofLine {source raw : Text} {line : Int} {r : Rule}
    (h : ofLine source line raw = .ok (some r)) :
    r.source = source ∧ r.line = line ∧ r.raw = raw ∧
      Line.ofText? raw = some ⟨r.toFlags, r.glob.pattern⟩ := by
  unfold ofLine at h
  split at h
  · cases h
  · next parts hparts =>
    split at h
    · cases h
    · next glob hglob =>
      cases h
      exact ⟨rfl, rfl, rfl, by rw [hparts, (Glob.compile_eq_ok_iff.mp hglob).1]⟩

end Rule

end PathIgnore
