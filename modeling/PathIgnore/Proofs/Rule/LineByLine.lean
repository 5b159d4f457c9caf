import Mathlib.Control.Monad.Basic
import PathIgnore.Proofs.Rule.Lines
import PathIgnore.Proofs.Rule.Spelling

/-!
# Reading line by line

Each line of a file is read by itself. What it gives, be it a rule, an error or neither, is all that the
rule set holds under its number (`ReadsLineByLine`). So a line that does not compile costs nothing but its
own error: with a comment in its place the rules are the same (`ofLines_lineByLine`).
-/

namespace PathIgnore

theorem Rule.line_of_errorOfLine? {source raw : Text} {line : Int} {e : RuleError}
    (h : errorOfLine? source line raw = some e) : e.line = line :=
  (eq_of_ofLine_error (errorOfLine?_eq_some_iff.mp h)).2.1

namespace RuleSet

/-- The rules and the errors under one number. -/
def onLine (s : RuleSet) (line : Int) : List Rule × List RuleError :=
  (s.rules.filter (·.line == line), s.errors.filter (·.line == line))

/-- The set holds what the lines give one by one, in order and under their numbers, the first of which is
one. -/
structure ReadsLineByLine (source : Text) (lines : List Text) (s : RuleSet) : Prop where
  onLine_eq : ∀ (k : Nat) raw, lines[k]? = some raw →
    s.onLine (k + 1) =
      match Rule.ofLine source (k + 1) raw with
      | .ok none => ([], [])
      | .ok (some r) => ([r], [])
      | .error e => ([], [e])
  raw_of_rule : ∀ r ∈ s.rules, ∃ k : Nat, r.line = k + 1 ∧ lines[k]? = some r.raw
  raw_of_error : ∀ e ∈ s.errors, ∃ k : Nat, e.line = k + 1 ∧ lines[k]? = some e.raw
  rules_ascend : s.rules.Pairwise fun a b => a.line < b.line
  errors_ascend : s.errors.Pairwise fun a b => a.line < b.line

/-! ## Under one number -/

section Collect

variable {α : Type} {give : Int → Text → Option α} {number : α → Int} {lines : List Text}

/-- What a file gives comes from the lines before one of them, from that line, and from those behind it. -/
theorem collect_append_cons (give : Int → Text → Option α) (before : List Text) (raw : Text)
    (after : List Text) :
    collect give 1 (before ++ raw :: after) =
      collect give 1 before ++ ((give (before.length + 1) raw).toList ++
        collect give (before.length + 2) after) := by
  have hsplit : collect give 1 (before ++ raw :: after) =
      collect give 1 before ++ collect give (1 + before.length) (raw :: after) := by
    rw [collect, List.zipIdx_append, List.filterMap_append]
    rfl
  have hplace : ((1 + before.length : Nat) : Int) = before.length + 1 := by omega
  rw [hsplit, collect_cons, hplace, Nat.add_comm 1]

/-- **Under one number stands what the line gives by itself.** -/
theorem filter_collect (hgive : ∀ line raw x, give line raw = some x → number x = line)
    (before : List Text) (raw : Text) (after : List Text) :
    (collect give 1 (before ++ raw :: after)).filter (fun x => number x == before.length + 1) =
      (give (before.length + 1) raw).toList := by
  have hbefore : (collect give 1 before).filter (fun x => number x == before.length + 1) = [] := by
    rw [List.filter_eq_nil_iff]
    intro x hx
    obtain ⟨j, _, hj, hx⟩ := mem_collect_iff.mp hx
    obtain ⟨hlt, -⟩ := List.getElem?_eq_some_iff.mp hj
    rw [hgive _ _ x hx, beq_iff_eq]
    omega
  have hafter : (collect give (before.length + 2) after).filter
      (fun x => number x == before.length + 1) = [] := by
    rw [List.filter_eq_nil_iff]
    intro x hx
    obtain ⟨j, _, -, hx⟩ := mem_collect_iff.mp hx
    rw [hgive _ _ x hx, beq_iff_eq]
    omega
  have hhere : (give (before.length + 1) raw).toList.filter (fun x => number x == before.length + 1) =
      (give (before.length + 1) raw).toList := by
    rw [List.filter_eq_self]
    intro x hx
    rw [hgive _ _ x (Option.mem_toList.mp hx), beq_iff_eq]
  rw [collect_append_cons, List.filter_append, List.filter_append, hbefore, hafter, hhere,
    List.nil_append, List.append_nil]

/-- What is given bears the number of its line. -/
theorem exists_line_of_mem_collect (hgive : ∀ line raw x, give line raw = some x → number x = line)
    {text : α → Text} (htext : ∀ line raw x, give line raw = some x → text x = raw) :
    ∀ x ∈ collect give 1 lines, ∃ k : Nat, number x = k + 1 ∧ lines[k]? = some (text x) := by
  intro x hx
  obtain ⟨k, raw, hk, hx⟩ := mem_collect_iff.mp hx
  refine ⟨k, ?_, by rw [hk, htext _ _ x hx]⟩
  rw [hgive _ _ x hx]
  omega

end Collect

/-- Under the number of a line stands what the line gives by itself, be it a rule or an error. -/
theorem onLine_ofLines (source : Text) (before : List Text) (raw : Text) (after : List Text) :
    (ofLines source (before ++ raw :: after)).onLine (before.length + 1) =
      ((Rule.ofLine? source (before.length + 1) raw).toList,
        (Rule.errorOfLine? source (before.length + 1) raw).toList) := by
  rw [onLine, rules_ofLines, errors_ofLines, filter_collect (fun _ _ _ => line_of_ofLine?),
    filter_collect fun _ _ _ => Rule.line_of_errorOfLine?]

theorem readsLineByLine_ofLines (source : Text) (lines : List Text) :
    ReadsLineByLine source lines (ofLines source lines) where
  onLine_eq k raw h := by
    obtain ⟨hk, rfl⟩ := List.getElem?_eq_some_iff.mp h
    have hline := onLine_ofLines source (lines.take k) lines[k] (lines.drop (k + 1))
    rw [List.getElem_cons_drop, List.take_append_drop, List.length_take_of_le (Nat.le_of_lt hk)] at hline
    rw [hline, Rule.ofLine?, Rule.errorOfLine?]
    cases Rule.ofLine source (k + 1) lines[k] with
    | error e => rfl
    | ok r? => cases r? <;> rfl
  raw_of_rule := by
    rw [rules_ofLines]
    exact exists_line_of_mem_collect (fun _ _ _ => line_of_ofLine?) fun _ _ _ h =>
      (Rule.eq_of_ofLine (Rule.ofLine?_eq_some_iff.mp h)).2.2.1
  raw_of_error := by
    rw [errors_ofLines]
    exact exists_line_of_mem_collect (fun _ _ _ => Rule.line_of_errorOfLine?) fun _ _ _ h =>
      (Rule.eq_of_ofLine_error (Rule.errorOfLine?_eq_some_iff.mp h)).2.2.1
  rules_ascend := by
    rw [rules_ofLines]
    exact pairwise_collect (fun _ _ _ => line_of_ofLine?) 1 lines
  errors_ascend := by
    rw [errors_ofLines]
    exact pairwise_collect (fun _ _ _ => Rule.line_of_errorOfLine?) 1 lines

/-! ## A line that does not compile -/

variable {source bad : Text} {before : List Text} {e : RuleError}

/-- A line that does not compile gives the rules that a comment gives, namely none. -/
theorem rules_ofLines_of_error (h : Rule.ofLine source (before.length + 1) bad = .error e)
    (after : List Text) :
    (ofLines source (before ++ bad :: after)).rules = (ofLines source (before ++ ['#'] :: after)).rules := by
  have hnone : Rule.ofLine? source (before.length + 1) bad = none := by rw [Rule.ofLine?, h]
  rw [rules_ofLines, rules_ofLines, collect_append_cons, collect_append_cons, hnone]
  rfl

/-- Its error stands between those of the lines before it and those of the lines behind it. -/
theorem exists_errors_ofLines_of_error (h : Rule.ofLine source (before.length + 1) bad = .error e)
    (after : List Text) :
    ∃ front back, (ofLines source (before ++ bad :: after)).errors = front ++ e :: back ∧
      (ofLines source (before ++ ['#'] :: after)).errors = front ++ back := by
  refine ⟨collect (Rule.errorOfLine? source) 1 before,
    collect (Rule.errorOfLine? source) (before.length + 2) after, ?_, ?_⟩
  · have hsome : Rule.errorOfLine? source (before.length + 1) bad = some e :=
      Rule.errorOfLine?_eq_some_iff.mpr h
    rw [errors_ofLines, collect_append_cons, hsome]
    rfl
  · rw [errors_ofLines, collect_append_cons]
    rfl

/--
**A file is read line by line.** Under each number stands what its line gives by itself, with its text, in
ascending order, and nothing else. With a comment in place of a line that does not compile, the rules are
the same and decide alike, and of the errors just the one of that line is missing.
-/
theorem ofLines_lineByLine (source : Text) :
    (∀ lines, ReadsLineByLine source lines (ofLines source lines)) ∧
    ∀ before bad after e, Rule.ofLine source (before.length + 1) bad = .error e →
      let s := ofLines source (before ++ bad :: after)
      let s' := ofLines source (before ++ ['#'] :: after)
      s.rules = s'.rules ∧
      (∃ front back, s.errors = front ++ e :: back ∧ s'.errors = front ++ back) ∧
      ∀ path isDirectory, s.firstMatch path isDirectory = s'.firstMatch path isDirectory := by
  refine ⟨readsLineByLine_ofLines source, fun before bad after e h => ?_⟩
  have hrules := rules_ofLines_of_error h after
  refine ⟨hrules, exists_errors_ofLines_of_error h after, fun path isDirectory => ?_⟩
  rw [firstMatch, hrules, firstMatch]

/-- A malformed line between a negated rule and an error. -/
theorem ofLines_lineByLine_between :
    let source := "/r/.aiignore".toList
    let before := ["!a".toList, [], "x".toList]
    let after := ["b//c".toList, "*".toList]
    let e : RuleError := ⟨source, 4, "[b".toList, "[b".toList, .unclosedSet, 0⟩
    let s := ofLines source (before ++ "[b".toList :: after)
    let s' := ofLines source (before ++ ['#'] :: after)
    Rule.ofLine source (before.length + 1) "[b".toList = .error e ∧ s.rules = s'.rules ∧
      (∃ front back, s.errors = front ++ e :: back ∧ s'.errors = front ++ back) ∧
      s.rules.map (·.line) = [1, 3, 6] ∧ s.errors.map (·.line) = [4, 5] := by
  intro source before after e s s'
  have hparts : Line.ofText? "[b".toList = some { basenameOnly := true, pattern := "[b".toList } := by
    decide +kernel
  have hbad : Rule.ofLine source (before.length + 1) "[b".toList = .error e :=
    Rule.ofLine_eq_error hparts (by decide +kernel)
  obtain ⟨hrules, herrors, -⟩ := (ofLines_lineByLine source).2 before "[b".toList after e hbad
  exact ⟨hbad, hrules, herrors, by decide +kernel, by decide +kernel⟩

end RuleSet

end PathIgnore
