import PathIgnore.Proofs.Rule.Decisive

/-!
# The rules on the lines of a file

The rules and the errors of a file are what its lines give, one by one (`readFrom_eq_collect`). A line
gives the same rule wherever it stands, but for its place (`ofLine?_placed`). The rules of a file stand on
ascending lines, so of those that apply the foremost decides (`decisive_ofLines`), and places apart they
are what the lines give one by one (`map_placed_rules_ofLines`).
-/

namespace PathIgnore

namespace Rule

/-- The rule put on a line of another file. -/
def placed (source : Text) (line : Int) (r : Rule) : Rule := { r with source, line }

/-- The rule on a line; none if the line is blank, a comment or does not compile. -/
def ofLine? (source : Text) (line : Int) (raw : Text) : Option Rule :=
  match ofLine source line raw with
  | .ok r? => r?
  | .error _ => none

theorem ofLine?_eq_some_iff {source raw : Text} {line : Int} {r : Rule} :
    ofLine? source line raw = some r ↔ ofLine source line raw = .ok (some r) := by
  unfold ofLine?
  split <;> simp_all

theorem ofLine?_placed (source source' : Text) (line line' : Int) (raw : Text) :
    ofLine? source' line' raw = (ofLine? source line raw).map (placed source' line') := by
  unfold ofLine? ofLine
  cases Line.ofText? raw with
  | none => rfl
  | some parts =>
    dsimp only
    cases Glob.compile parts.pattern <;> rfl

/-- The error of a line; none if the line is blank, a comment or gives a rule. -/
def errorOfLine? (source : Text) (line : Int) (raw : Text) : Option RuleError :=
  match ofLine source line raw with
  | .ok _ => none
  | .error e => some e

theorem errorOfLine?_eq_some_iff {source raw : Text} {line : Int} {e : RuleError} :
    errorOfLine? source line raw = some e ↔ ofLine source line raw = .error e := by
  unfold errorOfLine?
  split <;> simp_all

end Rule

namespace RuleSet

/-! ## Line by line -/

/-- What lines give one by one, the first of which has the number `n`. -/
def collect {α : Type} (give : Int → Text → Option α) (n : Nat) (lines : List Text) : List α :=
  (lines.zipIdx n).filterMap fun l => give l.2 l.1

section Collect

variable {α : Type} {give : Int → Text → Option α} {number : α → Int} {n : Nat} {lines : List Text}

theorem collect_cons (give : Int → Text → Option α) (n : Nat) (raw : Text) (rest : List Text) :
    collect give n (raw :: rest) = (give n raw).toList ++ collect give (n + 1) rest := by
  rw [collect, List.zipIdx_cons, List.filterMap_cons]
  dsimp only
  cases give n raw <;> rfl

theorem mem_collect_iff {x : α} :
    x ∈ collect give n lines ↔ ∃ k raw, lines[k]? = some raw ∧ give (n + k : Nat) raw = some x := by
  rw [collect, List.mem_filterMap]
  constructor
  · rintro ⟨⟨raw, i⟩, hmem, hgive⟩
    obtain ⟨hle, hget⟩ := List.mk_mem_zipIdx_iff_le_and_getElem?_sub.mp hmem
    exact ⟨i - n, raw, hget, by rwa [Nat.add_sub_cancel' hle]⟩
  · rintro ⟨k, raw, hget, hgive⟩
    refine ⟨(raw, n + k), List.mk_mem_zipIdx_iff_le_and_getElem?_sub.mpr ⟨Nat.le_add_right n k, ?_⟩, hgive⟩
    rwa [Nat.add_sub_cancel_left]

/-- What is told where it stands comes in ascending order. -/
theorem pairwise_collect (hgive : ∀ line raw x, give line raw = some x → number x = line) (n : Nat)
    (lines : List Text) : (collect give n lines).Pairwise fun x y => number x < number y := by
  induction lines generalizing n with
  | nil => exact .nil
  | cons raw rest ih =>
    rw [collect_cons, List.pairwise_append]
    refine ⟨by cases give n raw <;> simp, ih (n + 1), ?_⟩
    intro x hx y hy
    obtain ⟨k, raw', -, hy⟩ := mem_collect_iff.mp hy
    rw [hgive _ _ x (Option.mem_toList.mp hx), hgive _ _ y hy]
    omega

end Collect

theorem readFrom_eq_collect (source : Text) (n : Nat) (lines : List Text) :
    readFrom source n lines =
      (collect (Rule.ofLine? source) n lines, collect (Rule.errorOfLine? source) n lines) := by
  induction lines generalizing n with
  | nil => rfl
  | cons raw rest ih =>
    rw [readFrom, ih, collect_cons, collect_cons, Rule.ofLine?, Rule.errorOfLine?]
    cases Rule.ofLine source n raw with
    | error e => rfl
    | ok r? => cases r? <;> rfl

theorem line_of_ofLine? {source raw : Text} {line : Int} {r : Rule}
    (h : Rule.ofLine? source line raw = some r) : r.line = line :=
  (Rule.eq_of_ofLine (Rule.ofLine?_eq_some_iff.mp h)).2.1

theorem rules_ofLines (source : Text) (lines : List Text) :
    (ofLines source lines).rules = collect (Rule.ofLine? source) 1 lines :=
  congrArg Prod.fst (readFrom_eq_collect source 1 lines)

theorem errors_ofLines (source : Text) (lines : List Text) :
    (ofLines source lines).errors = collect (Rule.errorOfLine? source) 1 lines :=
  congrArg Prod.snd (readFrom_eq_collect source 1 lines)

theorem source_of_mem_ofLines {source : Text} {lines : List Text} {r : Rule}
    (h : r ∈ (ofLines source lines).rules) : r.source = source := by
  rw [rules_ofLines] at h
  obtain ⟨k, raw, -, hr⟩ := mem_collect_iff.mp h
  exact (Rule.eq_of_ofLine (Rule.ofLine?_eq_some_iff.mp hr)).1

/-! ## The foremost rule -/

/-- What rules that all apply come to, read from top to bottom. -/
def foremost (rules : List Rule) : Option Rule :=
  if rules.any (·.negated) then none else rules.head?

theorem leastLine_eq_head? {rules : List Rule} (h : rules.Pairwise fun a b => a.line < b.line) :
    leastLine rules = rules.head? := by
  cases rules with
  | nil => rfl
  | cons a rest =>
    have hleast : isLeast (a :: rest) a = true := by
      rw [isLeast_iff, List.forall_mem_cons]
      exact ⟨Int.le_refl _, fun b hb => Int.le_of_lt (List.rel_of_pairwise_cons h hb)⟩
    rw [leastLine, List.find?_cons_of_pos hleast]
    rfl

/-- **In a file the foremost of the rules that apply decides.** -/
theorem decisive_ofLines (source : Text) (lines : List Text) (path : Text) (isDirectory : Bool) :
    (ofLines source lines).decisive path isDirectory =
      foremost (applying (ofLines source lines).rules path isDirectory) := by
  rw [decisive, foremost, leastLine_eq_head?]
  rw [rules_ofLines]
  exact (pairwise_collect (fun _ _ _ => line_of_ofLine?) 1 lines).filter _

theorem foremost_map (f : Rule → Rule) (hf : ∀ r, (f r).negated = r.negated) (rules : List Rule) :
    foremost (rules.map f) = (foremost rules).map f := by
  rw [foremost, foremost, any_negated_map hf, List.head?_map]
  split <;> rfl

/-! ## Places apart -/

theorem map_placed_collect (source : Text) (lines : List Text) (n : Nat) :
    (collect (Rule.ofLine? source) n lines).map (Rule.placed source 0) =
      lines.filterMap (Rule.ofLine? source 0) := by
  induction lines generalizing n with
  | nil => rfl
  | cons raw rest ih =>
    rw [collect_cons, List.map_append, ih, List.filterMap_cons,
      Rule.ofLine?_placed source source n 0 raw]
    cases Rule.ofLine? source n raw <;> rfl

/-- **Places apart, the rules of a file are what its lines give one by one.** -/
theorem map_placed_rules_ofLines (source : Text) (lines : List Text) :
    (ofLines source lines).rules.map (Rule.placed source 0) =
      lines.filterMap (Rule.ofLine? source 0) := by
  rw [rules_ofLines, map_placed_collect]

/-- **Places apart, what decides hangs on what the lines give one by one.** -/
theorem map_placed_decisive_ofLines (source : Text) (lines : List Text) (path : Text)
    (isDirectory : Bool) :
    ((ofLines source lines).decisive path isDirectory).map (Rule.placed source 0) =
      foremost (applying (lines.filterMap (Rule.ofLine? source 0)) path isDirectory) := by
  rw [decisive_ofLines, ← foremost_map (Rule.placed source 0) fun _ => rfl, ← map_placed_rules_ofLines]
  refine congrArg foremost (applying_map fun r hr => ?_).symm
  -- A rule of the file is in the file already; only its line changes.
  rw [← source_of_mem_ofLines hr]
  rfl

/-! ## Another file -/

theorem collect_of_source (source source' : Text) (lines : List Text) (n : Nat) :
    collect (Rule.ofLine? source') n lines =
      (collect (Rule.ofLine? source) n lines).map fun r => r.placed source' r.line := by
  induction lines generalizing n with
  | nil => rfl
  | cons raw rest ih =>
    rw [collect_cons, collect_cons, List.map_append, ih, Rule.ofLine?_placed source source' n n raw]
    cases hline : Rule.ofLine? source n raw with
    | none => rfl
    | some r =>
      rw [← line_of_ofLine? hline]
      rfl

/-- **The same lines in another file, held against another path, decide alike if the same of their rules
apply.** -/
theorem decisive_ofLines_of_source {source source' : Text} {lines : List Text} {path path' : Text}
    {isDirectory : Bool} (h : ∀ r ∈ (ofLines source lines).rules,
      (r.placed source' r.line).appliesTo path' isDirectory = r.appliesTo path isDirectory) :
    (ofLines source' lines).decisive path' isDirectory =
      ((ofLines source lines).decisive path isDirectory).map fun r => r.placed source' r.line := by
  have hrules : (ofLines source' lines).rules =
      (ofLines source lines).rules.map fun r => r.placed source' r.line := by
    rw [rules_ofLines, rules_ofLines, collect_of_source source source']
  rw [decisive_ofLines, decisive_ofLines, hrules, applying_map h,
    foremost_map (fun r => r.placed source' r.line) fun _ => rfl]

end RuleSet

end PathIgnore
