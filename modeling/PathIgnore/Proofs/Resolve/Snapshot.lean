import PathIgnore.Cache.Basic
import PathIgnore.Proofs.Disk.Timeline
import PathIgnore.Proofs.Resolve.Boundary
import PathIgnore.Resolve.Basic

/-!
# What a snapshot says of a path

A snapshot of a disk settles without any cache what every file holds (`rulesOf`), what a plan comes to
(`decision`), and what resolving a path comes to (`resolution`). A decision is kept together with the
candidate that it is about.
-/

namespace PathIgnore

/-! ## Files and plans -/

/-- The rules of a file: none if it is not there or cannot be read. -/
def Snapshot.rulesOf (s : Snapshot) (file : Text) : Except PathFault (Option RuleSet) :=
  match s.stat file with
  | .error fault => .error fault
  | .ok none => .ok none
  | .ok (some _) =>
    match s.read file with
    | .error fault => .error fault
    | .ok (.lines lines) => .ok (some (.ofLines file lines))
    | .ok _ => .ok none

/-- The first of the candidates about which a rule decides, and that rule. -/
def RuleSet.firstOf (rules : RuleSet) (candidates : List Candidate) : Option (Candidate × Rule) :=
  candidates.findSome? fun c => (rules.firstMatch c.path c.isDirectory).map (c, ·)

/-- What consulting one file comes to. -/
def Snapshot.consult (s : Snapshot) (step : Consultation) :
    Except PathFault (Option (Candidate × Rule)) :=
  (s.rulesOf step.file).map fun rules? => rules?.bind (·.firstOf step.candidates)

/-- What the first consultation that decides comes to. -/
def Snapshot.decision (s : Snapshot) (plan : List Consultation) :
    Except PathFault (Option (Candidate × Rule)) :=
  plan.findSomeM? s.consult

theorem Snapshot.decision_cons (s : Snapshot) (step : Consultation) (rest : List Consultation) :
    s.decision (step :: rest) =
      match s.consult step with
      | .error fault => .error fault
      | .ok (some found) => .ok (some found)
      | .ok none => s.decision rest := by
  rw [decision, List.findSomeM?_cons]
  cases hconsult : s.consult step with
  | error fault => rfl
  | ok found =>
    cases found with
    | none => rfl
    | some found => rfl

theorem RuleSet.mem_of_firstOf {rules : RuleSet} {candidates : List Candidate} {q : Candidate} {r : Rule}
    (h : rules.firstOf candidates = some (q, r)) : q ∈ candidates := by
  obtain ⟨c, hc, hmap⟩ := List.exists_of_findSome?_eq_some h
  obtain ⟨_, -, hpair⟩ := Option.map_eq_some_iff.mp hmap
  cases hpair
  exact hc

theorem RuleSet.firstOf_append (rules : RuleSet) (l m : List Candidate) :
    rules.firstOf (l ++ m) = (rules.firstOf l).or (rules.firstOf m) :=
  List.findSome?_append

namespace Snapshot

variable {s : Snapshot}

/-- A plan decides with its first file, or without a word of that file with the rest. -/
theorem decision_cons_eq_some_iff {step : Consultation} {rest : List Consultation}
    {found : Candidate × Rule} :
    s.decision (step :: rest) = .ok (some found) ↔
      ∃ rules?, s.rulesOf step.file = .ok rules? ∧
        (rules?.bind (·.firstOf step.candidates) = some found ∨
          rules?.bind (·.firstOf step.candidates) = none ∧ s.decision rest = .ok (some found)) := by
  rw [decision_cons, consult]
  cases s.rulesOf step.file with
  | error fault => simp [Except.map]
  | ok rules? =>
    simp only [Except.map, Except.ok.injEq, exists_eq_left']
    cases rules?.bind (·.firstOf step.candidates) with
    | none => simp
    | some other => simp

/-- What decides is about a candidate of the plan. -/
theorem exists_of_decision {q : Candidate} {r : Rule} : ∀ {plan : List Consultation},
    s.decision plan = .ok (some (q, r)) → ∃ step ∈ plan, q ∈ step.candidates
  | [], h => by cases h
  | step :: rest, h => by
    obtain ⟨rules?, -, hfirst | ⟨-, hrest⟩⟩ := decision_cons_eq_some_iff.mp h
    · obtain ⟨rules, rfl, hrules⟩ := Option.bind_eq_some_iff.mp hfirst
      exact ⟨step, List.mem_cons_self, RuleSet.mem_of_firstOf hrules⟩
    · obtain ⟨other, hother, hq⟩ := exists_of_decision hrest
      exact ⟨other, List.mem_cons_of_mem _ hother, hq⟩

end Snapshot

/-! ## Paths -/

/-- The nearest directory above a path that holds the marker. -/
def Snapshot.boundaryRoot (s : Snapshot) (marker path : Text) : Option Text :=
  (Path.ancestors path).find? fun directory => s.has (Path.join directory marker)

theorem Snapshot.mem_ancestors_of_boundaryRoot {s : Snapshot} {marker path : Text} :
    ∀ root ∈ s.boundaryRoot marker path, root ∈ Path.ancestors path :=
  fun _ h => List.mem_of_find?_eq_some h

/-- What consulting the files along the chain of a path comes to. -/
def Snapshot.decisionFor (s : Snapshot) (d : Discovery) (path : Text) :
    Except PathFault (Option (Candidate × Rule)) :=
  s.decision (Plan.ofChain d.fileNames.texts (Chain.upTo path (s.boundaryRoot d.boundaryMarker path)))

/-- The path lies outside, and everything outside is ignored. -/
def Snapshot.IgnoresOutside (s : Snapshot) (d : Discovery) (path : Text) : Prop :=
  s.boundaryRoot d.boundaryMarker path = none ∧ d.ignoreOutside = true

instance (s : Snapshot) (d : Discovery) (path : Text) : Decidable (s.IgnoresOutside d path) :=
  inferInstanceAs (Decidable (_ ∧ _))

/-- What resolving a path comes to. -/
def Snapshot.resolution (s : Snapshot) (d : Discovery) (path : Text) : Except PathFault Resolution :=
  if s.IgnoresOutside d path then .ok ⟨path, none, .outside⟩
  else (s.decisionFor d path).map fun found =>
    ⟨path, s.boundaryRoot d.boundaryMarker path, found.elim .noMatch (.rule ·.2)⟩

end PathIgnore
