import PathIgnore.Proofs.Resolve.Unchanged
import PathIgnore.Proofs.Rule.Decisive

/-!
# The verdict without a cache

`Snapshot.verdict` is what the verdict for a path ought to be on a disk that stands still. It knows no
cache, no chain and no plan: it asks of one file after the other whether a rule decides about a path,
and every question is read off the numbers of the two levels that it is about.

1. `findSomeM?_questionsOf`: consulting a file asks about its candidates one after the other.
2. `ofChain_map_range`: the plan of a chain, by levels.
3. `upTo_eq_map_range`: the chain of a path, by levels.
4. `verdict_eq_map_resolution`: so the verdict is that of the resolution.
-/

namespace PathIgnore

/-- Does a rule of the file decide about the path? -/
structure Question where
  file : Text
  path : Text
  isDirectory : Bool
  deriving DecidableEq, Repr

/-- The rule by which the file decides about the path. -/
def Snapshot.ask (s : Snapshot) (q : Question) : Except PathFault (Option Rule) :=
  (s.rulesOf q.file).map fun rules? => rules?.bind (·.decisive q.path q.isDirectory)

/-- The questions about a path where so many directories above it count. The directories come from the
outermost inward, in each the names in order, and for each file everything that stands inward of its
directory, from the outermost inward. The path itself comes last and alone is no directory. -/
def questions (names : List Text) (path : Text) (levels : Nat) : List Question :=
  (List.range levels).reverse.flatMap fun i => names.flatMap fun name =>
    (List.range (i + 1)).reverse.map fun j =>
      ⟨Path.join (Path.above path (i + 1)) name, Path.above path j, j != 0⟩

/-- How many directories count: those up to the root, or one where there is no root. -/
def levelsUpTo (path : Text) : Option Text → Nat
  | none => 1
  | some root => (Path.ancestors path).idxOf root + 1

/-- The verdict for a path in normal form. -/
def Snapshot.verdict (s : Snapshot) (d : Discovery) (path : Text) : Except PathFault Verdict :=
  let root := s.boundaryRoot d.boundaryMarker path
  if s.IgnoresOutside d path then
    .ok { path, ignored := true, reason := Reason.outsideBoundary.word }
  else
    ((questions d.fileNames.texts path (levelsUpTo path root)).findSomeM? s.ask).map fun
      | some r =>
        { path, ignored := true, reason := Reason.rule.word, boundaryRoot := root, rule := some r.report }
      | none => { path, ignored := false, reason := Reason.noMatch.word, boundaryRoot := root }

/-! ## Questions of a consultation -/

theorem findSomeM?_append {ε α β : Type} (f : α → Except ε (Option β)) : ∀ l m : List α,
    (l ++ m).findSomeM? f =
      match l.findSomeM? f with
      | .error e => .error e
      | .ok (some b) => .ok (some b)
      | .ok none => m.findSomeM? f
  | [], m => rfl
  | a :: l, m => by
    rw [List.cons_append, List.findSomeM?_cons, List.findSomeM?_cons]
    cases f a with
    | error e => rfl
    | ok found =>
      cases found with
      | none => exact findSomeM?_append f l m
      | some b => rfl

/-- What a consultation asks. -/
def questionsOf (step : Consultation) : List Question :=
  step.candidates.map fun c => ⟨step.file, c.path, c.isDirectory⟩

variable {s : Snapshot}

theorem Snapshot.ask_of_ok {q : Question} {rules? : Option RuleSet} (h : s.rulesOf q.file = .ok rules?) :
    s.ask q = .ok (rules?.bind (·.firstMatch q.path q.isDirectory)) := by
  rw [ask, h]
  cases rules? with
  | none => rfl
  | some rules => exact congrArg Except.ok (rules.firstMatch_eq_decisive q.path q.isDirectory).symm

/-- Without a fault, asking is finding. -/
theorem findSomeM?_of_ok {file : Text} {rules? : Option RuleSet} (h : s.rulesOf file = .ok rules?) :
    ∀ candidates : List Candidate, (questionsOf ⟨file, candidates⟩).findSomeM? s.ask =
      .ok ((rules?.bind (·.firstOf candidates)).map (·.2))
  | [] => by cases rules? <;> rfl
  | c :: rest => by
    have hrest := findSomeM?_of_ok h rest
    rw [questionsOf, List.map_cons, List.findSomeM?_cons, Snapshot.ask_of_ok h]
    cases rules? with
    | none => exact hrest
    | some rules =>
      rw [Option.bind_some, Option.bind_some, RuleSet.firstOf, List.findSome?_cons]
      dsimp only
      cases rules.firstMatch c.path c.isDirectory with
      | none => exact hrest
      | some r => rfl

/-- **Consulting a file asks about its candidates one after the other.** -/
theorem findSomeM?_questionsOf (s : Snapshot) {step : Consultation} (hne : step.candidates ≠ []) :
    (questionsOf step).findSomeM? s.ask = (s.consult step).map (·.map (·.2)) := by
  obtain ⟨file, candidates⟩ := step
  rw [Snapshot.consult]
  cases hrules : s.rulesOf file with
  | ok rules? => exact findSomeM?_of_ok hrules candidates
  | error fault =>
    obtain ⟨c, rest, rfl⟩ := List.exists_cons_of_ne_nil hne
    rw [questionsOf, List.map_cons, List.findSomeM?_cons, Snapshot.ask, hrules]
    rfl

theorem findSomeM?_flatMap_questionsOf (s : Snapshot) : ∀ {plan : List Consultation},
    (∀ step ∈ plan, step.candidates ≠ []) →
      (plan.flatMap questionsOf).findSomeM? s.ask = (s.decision plan).map (·.map (·.2))
  | [], _ => rfl
  | step :: rest, hne => by
    rw [List.flatMap_cons, findSomeM?_append, findSomeM?_questionsOf s (hne step List.mem_cons_self),
      findSomeM?_flatMap_questionsOf s fun x hx => hne x (List.mem_cons_of_mem _ hx),
      Snapshot.decision_cons]
    cases s.consult step with
    | error fault => rfl
    | ok found => cases found <;> rfl

/-! ## Plans by levels -/

theorem reverse_range_succ (i : Nat) : (List.range (i + 1)).reverse = i :: (List.range i).reverse := by
  rw [List.range_succ, List.reverse_append]
  rfl

theorem reverse_map_range_succ (f : Nat → Text) (i : Nat) :
    ((List.range (i + 1)).map f).reverse = f i :: ((List.range i).map f).reverse := by
  rw [← List.map_reverse, reverse_range_succ, List.map_cons, List.map_reverse]

theorem candidates_map_range (f : Nat → Text) : ∀ i : Nat,
    Plan.candidates ((List.range (i + 1)).map f).reverse =
      (List.range (i + 1)).reverse.map fun j => ⟨f j, j != 0⟩
  | 0 => rfl
  | i + 1 => by
    have hinner := candidates_map_range f i
    rw [reverse_map_range_succ] at hinner
    rw [reverse_map_range_succ, reverse_map_range_succ, reverse_range_succ, List.map_cons, ← hinner]
    rfl

/-- **The plan of a chain goes over its levels from the outermost inward.** -/
theorem ofChain_map_range (names : List Text) (f : Nat → Text) : ∀ k : Nat,
    Plan.ofChain names ((List.range (k + 1)).map f) =
      (List.range k).reverse.flatMap fun i =>
        Plan.inDirectory names (f (i + 1)) ((List.range (i + 1)).map f).reverse
  | 0 => rfl
  | k + 1 => by
    have hinner := ofChain_map_range names f k
    rw [Plan.ofChain, reverse_map_range_succ] at hinner
    rw [Plan.ofChain, reverse_map_range_succ, reverse_range_succ, List.flatMap_cons, ← hinner,
      reverse_map_range_succ]
    rfl

theorem flatMap_questionsOf_ofChain (names : List Text) (path : Text) (k : Nat) :
    (Plan.ofChain names ((List.range (k + 1)).map (Path.above path))).flatMap questionsOf =
      questions names path k := by
  rw [ofChain_map_range, List.flatMap_assoc]
  refine congrArg (List.flatMap · _) (funext fun i => ?_)
  rw [Plan.inDirectory, List.flatMap_map]
  refine congrArg (List.flatMap · _) (funext fun name => ?_)
  rw [questionsOf, candidates_map_range, List.map_map]
  rfl

theorem candidates_ne_nil {names : List Text} {f : Nat → Text} {k : Nat} {step : Consultation}
    (h : step ∈ Plan.ofChain names ((List.range (k + 1)).map f)) : step.candidates ≠ [] := by
  rw [ofChain_map_range] at h
  obtain ⟨i, -, hi⟩ := List.mem_flatMap.mp h
  obtain ⟨name, -, rfl⟩ := List.mem_map.mp hi
  rw [candidates_map_range, reverse_range_succ]
  exact List.cons_ne_nil _ _

/-! ## Chains by levels -/

variable {l : List Text}

/-- **The chain of a path holds its levels up to the root.** -/
theorem upTo_eq_map_range (hl : ∀ x ∈ l, Path.IsSegment x) {root : Option Text}
    (hroot : ∀ r ∈ root, r ∈ Path.ancestors (Path.ofSegments l)) :
    Chain.upTo (Path.ofSegments l) root =
      (List.range (levelsUpTo (Path.ofSegments l) root + 1)).map (Path.above (Path.ofSegments l)) := by
  cases root with
  | none => rfl
  | some r =>
    have hmem := hroot r rfl
    -- Level zero is the path itself, and the chain stops at the level of the root.
    rw [Chain.upTo, levelsUpTo, Chain.through_eq_take, List.range_succ_eq_map, List.map_cons,
      List.map_map]
    rw [Path.ancestors, Path.trimEnd_ofSegments hl] at hmem ⊢
    rw [Path.take_ancestorsFrom _ _ (List.idxOf_lt_length_of_mem hmem)]
    rfl

/-- **On a disk that stands still the verdict of the resolution is the one without a cache.** -/
theorem verdict_eq_map_resolution (s : Snapshot) (d : Discovery) (hl : ∀ x ∈ l, Path.IsSegment x) :
    s.verdict d (Path.ofSegments l) = (s.resolution d (Path.ofSegments l)).map Resolution.verdict := by
  rw [Snapshot.verdict, Snapshot.resolution]
  by_cases houtside : s.IgnoresOutside d (Path.ofSegments l)
  · rw [if_pos houtside, if_pos houtside]
    rfl
  · rw [if_neg houtside, if_neg houtside, Snapshot.decisionFor,
      upTo_eq_map_range hl Snapshot.mem_ancestors_of_boundaryRoot, ← flatMap_questionsOf_ofChain,
      findSomeM?_flatMap_questionsOf s fun step hstep => candidates_ne_nil hstep]
    cases s.decision _ with
    | error fault => rfl
    | ok found => cases found <;> rfl

end PathIgnore
