import PathIgnore.Proofs.Resolve.Reference
import PathIgnore.Proofs.Resolve.Shown

/-!
# Two disks asked alike

To compare the answers on two disks it is enough to compare them question by question
(`findSomeM?_map_eq`, `findSomeM?_flatMap_eq`), and a question goes by the lines of its file alone
(`ask_eq_map_linesOf`).
-/

namespace PathIgnore

section Search

variable {ε ι α α' β γ : Type} {f : β → γ} {g : α → Except ε (Option β)} {g' : α' → Except ε (Option γ)}

theorem findSomeM?_map_eq {u : ι → α} {u' : ι → α'} {l : List ι}
    (h : ∀ x ∈ l, g' (u' x) = (g (u x)).map (Option.map f)) :
    (l.map u').findSomeM? g' = ((l.map u).findSomeM? g).map (Option.map f) := by
  induction l with
  | nil => rfl
  | cons x l ih =>
    rw [List.map_cons, List.map_cons, List.findSomeM?_cons, List.findSomeM?_cons,
      h x List.mem_cons_self, ih fun y hy => h y (List.mem_cons_of_mem _ hy)]
    cases g (u x) with
    | error e => rfl
    | ok found => cases found <;> rfl

theorem findSomeM?_flatMap_eq {u : ι → List α} {u' : ι → List α'} {l : List ι}
    (h : ∀ x ∈ l, (u' x).findSomeM? g' = ((u x).findSomeM? g).map (Option.map f)) :
    (l.flatMap u').findSomeM? g' = ((l.flatMap u).findSomeM? g).map (Option.map f) := by
  induction l with
  | nil => rfl
  | cons x l ih =>
    rw [List.flatMap_cons, List.flatMap_cons, findSomeM?_append, findSomeM?_append,
      h x List.mem_cons_self, ih fun y hy => h y (List.mem_cons_of_mem _ hy)]
    cases (u x).findSomeM? g with
    | error e => rfl
    | ok found => cases found <;> rfl

theorem map_findSomeM? (f : β → γ) (g : α → Except ε (Option β)) (l : List α) :
    (l.findSomeM? g).map (Option.map f) = l.findSomeM? fun x => (g x).map (Option.map f) := by
  have hsame : (l.map id).findSomeM? (fun x => (g x).map (Option.map f)) =
      ((l.map id).findSomeM? g).map (Option.map f) := findSomeM?_map_eq fun _ _ => rfl
  rw [List.map_id] at hsame
  exact hsame.symm

end Search

namespace Snapshot

/-- The lines of a file; none if it is not there or cannot be read. -/
def linesOf (s : Snapshot) (file : Text) : Except PathFault (Option (List Text)) :=
  match (s.stat file).map Option.isSome, s.read file with
  | .error fault, _ => .error fault
  | .ok false, _ => .ok none
  | .ok true, .error fault => .error fault
  | .ok true, .ok (.lines lines) => .ok (some lines)
  | .ok true, .ok _ => .ok none

theorem rulesOf_eq_map_linesOf (s : Snapshot) (file : Text) :
    s.rulesOf file = (s.linesOf file).map (Option.map (.ofLines file)) := by
  rw [rulesOf, linesOf]
  cases s.stat file with
  | error fault => rfl
  | ok seen =>
    cases seen with
    | none => rfl
    | some seen =>
      cases s.read file with
      | error fault => rfl
      | ok reading => cases reading <;> rfl

/-- **A question goes by the lines of its file.** -/
theorem ask_eq_map_linesOf (s : Snapshot) (q : Question) :
    s.ask q = (s.linesOf q.file).map fun lines? =>
      lines?.bind fun lines => (RuleSet.ofLines q.file lines).decisive q.path q.isDirectory := by
  rw [ask, rulesOf_eq_map_linesOf]
  cases s.linesOf q.file with
  | error fault => rfl
  | ok lines? => cases lines? <;> rfl

end Snapshot

/-- What is said of the verdict of a check is said of the verdict without a cache. -/
theorem Resolve.map_answer_check {σ α : Type} {disk : Disk σ} {w : σ} {s : Snapshot}
    (h : disk.Shows w s) (settings : Settings) {path : Text} (hpath : Path.IsCanonical path)
    (f : Verdict → α) :
    (check disk settings path .empty w).answer.map (fun r => f r.verdict) =
      (s.verdict settings.toDiscovery path).map f := by
  obtain ⟨l, hl, rfl⟩ := hpath.exists_segments
  rw [answer_check_of_shows h settings hpath,
    verdict_eq_map_resolution s settings.toDiscovery hl]
  cases s.resolution settings.toDiscovery (Path.ofSegments l) <;> rfl

end PathIgnore
