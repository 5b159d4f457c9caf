import Mathlib.Control.Monad.Basic
import PathIgnore.Proofs.Path.Rebase
import PathIgnore.Proofs.Resolve.Asking
import PathIgnore.Proofs.Resolve.Levels
import PathIgnore.Proofs.Rule.Lines

/-!
# Trees in another place

A verdict goes along with its tree: where the boundary root lies in the tree, and another tree beneath
another directory holds the same, the verdict there is the same but for the directory
(`verdict_check_moved`).

What a rule is held against hangs on the segments between the directory of its file and the path
(`candidate?_ofSegments`). So every question has its counterpart in the other tree, and both get the same
answer (`SameBeneath.ask_moved`).
-/

namespace PathIgnore

/-! ## What goes along -/

/-- The rule under another base. -/
def Rule.moved (base base' : Text) (r : Rule) : Rule := r.placed (Path.rebase base base' r.source) r.line

/-- The verdict under another base. -/
def Verdict.moved (base base' : Text) (v : Verdict) : Verdict :=
  { v with
    path := Path.rebase base base' v.path
    boundaryRoot := v.boundaryRoot.map (Path.rebase base base')
    rule := v.rule.map fun r => { r with source := Path.rebase base base' r.source } }

/-- Beneath the second directory, the second disk holds what the first one holds beneath the first: in all
directories the marker is there on both or on none, and the files of the names are there and read the
same. -/
structure Snapshot.SameBeneath (d : Discovery) (s s' : Snapshot) (a b : List Text) : Prop where
  has : ∀ m, (∀ x ∈ m, Path.IsPlain x) →
    s'.has (Path.join (Path.ofSegments (m ++ b)) d.boundaryMarker) =
      s.has (Path.join (Path.ofSegments (m ++ a)) d.boundaryMarker)
  stat : ∀ m, (∀ x ∈ m, Path.IsPlain x) → ∀ name ∈ d.fileNames.texts,
    (s'.stat (Path.join (Path.ofSegments (m ++ b)) name)).map Option.isSome =
      (s.stat (Path.join (Path.ofSegments (m ++ a)) name)).map Option.isSome
  read : ∀ m, (∀ x ∈ m, Path.IsPlain x) → ∀ name ∈ d.fileNames.texts,
    s'.read (Path.join (Path.ofSegments (m ++ b)) name) =
      s.read (Path.join (Path.ofSegments (m ++ a)) name)

variable {a b k m r : List Text} {x name : Text}

/-! ## Rules -/

/-- **What a rule is held against does not hang on what is outward of its file.** -/
theorem Rule.candidate?_ofSegments {r : Rule} (hk : ∀ y ∈ x :: k, Path.IsSegment y)
    (ha : ∀ y ∈ a, Path.IsSegment y) (hname : Path.IsSegment name)
    (hsource : r.source = Path.ofSegments (name :: a)) :
    r.candidate? (Path.ofSegments (x :: k ++ a)) =
      some (if r.basenameOnly then x else (Path.stem (x :: k)).tail) := by
  have hbase : Path.baseName (Path.ofSegments (x :: k ++ a)) = x :=
    Path.baseName_ofSegments_cons (List.forall_mem_append.mpr ⟨hk, ha⟩)
  rw [candidate?, baseDir, hsource, Path.dirName_ofSegments_cons (List.forall_mem_cons.mpr ⟨hname, ha⟩),
    Path.relative?_ofSegments hk ha (List.cons_ne_nil x k), hbase]
  split <;> rfl

/-- **A file decides alike from another directory.** -/
theorem RuleSet.decisive_ofLines_moved (hk : ∀ y ∈ x :: k, Path.IsSegment y)
    (hm : ∀ y ∈ m, Path.IsSegment y) (ha : ∀ y ∈ a, Path.IsSegment y) (hb : ∀ y ∈ b, Path.IsSegment y)
    (hname : Path.IsSegment name) (lines : List Text) (isDirectory : Bool) :
    (ofLines (Path.ofSegments (name :: m ++ b)) lines).decisive (Path.ofSegments (x :: k ++ (m ++ b)))
        isDirectory =
      ((ofLines (Path.ofSegments (name :: m ++ a)) lines).decisive (Path.ofSegments (x :: k ++ (m ++ a)))
        isDirectory).map (Rule.moved (Path.ofSegments a) (Path.ofSegments b)) := by
  have hplaced : ∀ r ∈ (ofLines (Path.ofSegments (name :: m ++ a)) lines).rules,
      (r.placed (Path.ofSegments (name :: m ++ b)) r.line).appliesTo
          (Path.ofSegments (x :: k ++ (m ++ b))) isDirectory =
        r.appliesTo (Path.ofSegments (x :: k ++ (m ++ a))) isDirectory := by
    intro r hr
    have hsame : (r.placed (Path.ofSegments (name :: m ++ b)) r.line).candidate?
        (Path.ofSegments (x :: k ++ (m ++ b))) = r.candidate? (Path.ofSegments (x :: k ++ (m ++ a))) := by
      rw [Rule.candidate?_ofSegments hk (List.forall_mem_append.mpr ⟨hm, hb⟩) hname rfl,
        Rule.candidate?_ofSegments hk (List.forall_mem_append.mpr ⟨hm, ha⟩) hname
          (source_of_mem_ofLines hr)]
      rfl
    rw [Rule.appliesTo, Rule.appliesTo, hsame]
    rfl
  rw [decisive_ofLines_of_source hplaced]
  refine Option.map_congr fun r hr => ?_
  rw [← firstMatch_eq_decisive] at hr
  rw [Rule.moved, source_of_mem_ofLines (of_firstMatch hr).1,
    Path.rebase_ofSegments (List.forall_mem_cons.mpr ⟨hname, hm⟩) ha hb]

/-! ## Boundary roots -/

theorem Snapshot.boundaryRoot_ofSegments (s : Snapshot) (marker : Text) {l : List Text}
    (hl : ∀ y ∈ l, Path.IsSegment y) :
    s.boundaryRoot marker (Path.ofSegments l) =
      ((List.range l.length).find? fun i =>
        s.has (Path.join (Path.ofSegments (l.drop (i + 1))) marker)).map fun i =>
          Path.ofSegments (l.drop (i + 1)) := by
  rw [boundaryRoot, Path.ancestors_ofSegments hl, List.find?_map]
  rfl

theorem levelsUpTo_ofSegments {l : List Text} (hl : ∀ y ∈ l, Path.IsSegment y) {i : Nat}
    (hi : i < l.length) :
    levelsUpTo (Path.ofSegments l) (some (Path.ofSegments (l.drop (i + 1)))) = i + 1 := by
  rw [levelsUpTo, Path.idxOf_ancestors_ofSegments hl hi]

namespace Snapshot.SameBeneath

variable {d : Discovery} {s s' : Snapshot}

/-- **The boundary root is found on the same level.** -/
theorem exists_boundaryRoot (h : SameBeneath d s s' a b) (hr : ∀ y ∈ r, Path.IsPlain y)
    (ha : ∀ y ∈ a, Path.IsSegment y) (hb : ∀ y ∈ b, Path.IsSegment y) {root : Text}
    (hroot : s.boundaryRoot d.boundaryMarker (Path.ofSegments (r ++ a)) = some root)
    (hwithin : Path.isWithin (Path.ofSegments a) root = true) :
    ∃ i < r.length, root = Path.ofSegments ((r ++ a).drop (i + 1)) ∧
      s'.boundaryRoot d.boundaryMarker (Path.ofSegments (r ++ b)) =
        some (Path.ofSegments ((r ++ b).drop (i + 1))) := by
  have hra : ∀ y ∈ r ++ a, Path.IsSegment y :=
    List.forall_mem_append.mpr ⟨fun y hy => (hr y hy).1, ha⟩
  have hrb : ∀ y ∈ r ++ b, Path.IsSegment y :=
    List.forall_mem_append.mpr ⟨fun y hy => (hr y hy).1, hb⟩
  rw [boundaryRoot_ofSegments s _ hra] at hroot
  obtain ⟨i, hfind, rfl⟩ := Option.map_eq_some_iff.mp hroot
  obtain ⟨hhas, hrange, hbefore⟩ := List.find?_range_eq_some.mp hfind
  rw [List.mem_range, List.length_append] at hrange
  rw [Path.isWithin_ofSegments_iff ha fun y hy => hra y (List.mem_of_mem_drop hy)] at hwithin
  have hi : i < r.length := by
    have hlength := hwithin.length_le
    rw [List.length_drop, List.length_append] at hlength
    omega
  -- Up to that level the directories of both paths lie in the trees.
  have hsame : ∀ j < r.length,
      s'.has (Path.join (Path.ofSegments ((r ++ b).drop (j + 1))) d.boundaryMarker) =
        s.has (Path.join (Path.ofSegments ((r ++ a).drop (j + 1))) d.boundaryMarker) := by
    intro j hj
    rw [List.drop_append_of_le_length hj, List.drop_append_of_le_length hj]
    exact h.has _ fun y hy => hr y (List.mem_of_mem_drop hy)
  have hfind' : (List.range (r ++ b).length).find? (fun j =>
      s'.has (Path.join (Path.ofSegments ((r ++ b).drop (j + 1))) d.boundaryMarker)) = some i := by
    refine List.find?_range_eq_some.mpr ⟨?_, ?_, ?_⟩
    · rw [hsame i hi]
      exact hhas
    · rw [List.mem_range, List.length_append]
      omega
    · intro j hj
      rw [hsame j (by omega)]
      exact hbefore j hj
  exact ⟨i, hi, rfl, by rw [boundaryRoot_ofSegments s' _ hrb, hfind', Option.map_some]⟩

/-! ## Questions -/

theorem linesOf_eq (h : SameBeneath d s s' a b) (hm : ∀ y ∈ m, Path.IsPlain y)
    (ha : ∀ y ∈ a, Path.IsSegment y) (hb : ∀ y ∈ b, Path.IsSegment y)
    (hname : name ∈ d.fileNames.texts) :
    s'.linesOf (Path.ofSegments (name :: m ++ b)) = s.linesOf (Path.ofSegments (name :: m ++ a)) := by
  have hsegments : ∀ y ∈ m, Path.IsSegment y := fun y hy => (hm y hy).1
  rw [List.cons_append, List.cons_append,
    ← Path.join_ofSegments (List.forall_mem_append.mpr ⟨hsegments, ha⟩),
    ← Path.join_ofSegments (List.forall_mem_append.mpr ⟨hsegments, hb⟩), linesOf, linesOf,
    h.stat m hm name hname, h.read m hm name hname]

/-- **A question and its counterpart get the same answer.** -/
theorem ask_moved (h : SameBeneath d s s' a b) (hk : ∀ y ∈ x :: k, Path.IsSegment y)
    (hm : ∀ y ∈ m, Path.IsPlain y) (ha : ∀ y ∈ a, Path.IsSegment y) (hb : ∀ y ∈ b, Path.IsSegment y)
    (hname : name ∈ d.fileNames.texts) (isDirectory : Bool) :
    s'.ask ⟨Path.ofSegments (name :: m ++ b), Path.ofSegments (x :: k ++ (m ++ b)), isDirectory⟩ =
      (s.ask ⟨Path.ofSegments (name :: m ++ a), Path.ofSegments (x :: k ++ (m ++ a)), isDirectory⟩).map
        (Option.map (Rule.moved (Path.ofSegments a) (Path.ofSegments b))) := by
  rw [ask_eq_map_linesOf, ask_eq_map_linesOf, h.linesOf_eq hm ha hb hname]
  cases s.linesOf (Path.ofSegments (name :: m ++ a)) with
  | error fault => rfl
  | ok lines? =>
    cases lines? with
    | none => rfl
    | some lines =>
      exact congrArg Except.ok (RuleSet.decisive_ofLines_moved hk (fun y hy => (hm y hy).1) ha hb
        (d.fileNames.isSegment_of_mem_texts hname) lines isDirectory)

end Snapshot.SameBeneath

theorem exists_drop_eq_cons_append {l : List Text} {i j : Nat} (hj : j ≤ i) (hi : i < l.length) :
    ∃ x k, l.drop j = x :: k ++ l.drop (i + 1) := by
  have hcut : (l.drop j).take (i + 1 - j) ++ l.drop (i + 1) = l.drop j := by
    have hsplit := List.take_append_drop (i + 1 - j) (l.drop j)
    rwa [List.drop_drop, Nat.add_sub_cancel' (by omega)] at hsplit
  have hne : (l.drop j).take (i + 1 - j) ≠ [] := by
    rw [← List.length_pos_iff, List.length_take, List.length_drop]
    omega
  obtain ⟨x, k, hcons⟩ := List.exists_cons_of_ne_nil hne
  exact ⟨x, k, by rw [← hcut, hcons]⟩

namespace Snapshot.SameBeneath

variable {d : Discovery} {s s' : Snapshot} {i j : Nat}

theorem question_ofSegments (hr : ∀ y ∈ r, Path.IsSegment y) (ha : ∀ y ∈ a, Path.IsSegment y)
    (hi : i < r.length) (hdrop : r.drop j = x :: k ++ r.drop (i + 1)) (hj : j ≤ i) (name : Text) :
    (⟨Path.join (Path.above (Path.ofSegments (r ++ a)) (i + 1)) name,
        Path.above (Path.ofSegments (r ++ a)) j, j != 0⟩ : Question) =
      ⟨Path.ofSegments (name :: r.drop (i + 1) ++ a),
        Path.ofSegments (x :: k ++ (r.drop (i + 1) ++ a)), j != 0⟩ := by
  have hra : ∀ y ∈ r ++ a, Path.IsSegment y := List.forall_mem_append.mpr ⟨hr, ha⟩
  rw [Path.above_ofSegments hra, Path.above_ofSegments hra,
    Path.join_ofSegments fun y hy => hra y (List.mem_of_mem_drop hy), List.drop_append_of_le_length hi,
    List.drop_append_of_le_length (by omega), hdrop, List.append_assoc]
  rfl

theorem findSomeM?_questions (h : SameBeneath d s s' a b) (hr : ∀ y ∈ r, Path.IsPlain y)
    (ha : ∀ y ∈ a, Path.IsSegment y) (hb : ∀ y ∈ b, Path.IsSegment y) {levels : Nat}
    (hlevels : levels ≤ r.length) :
    (questions d.fileNames.texts (Path.ofSegments (r ++ b)) levels).findSomeM? s'.ask =
      ((questions d.fileNames.texts (Path.ofSegments (r ++ a)) levels).findSomeM? s.ask).map
        (Option.map (Rule.moved (Path.ofSegments a) (Path.ofSegments b))) := by
  have hsegments : ∀ y ∈ r, Path.IsSegment y := fun y hy => (hr y hy).1
  refine findSomeM?_flatMap_eq fun i hi => findSomeM?_flatMap_eq fun name hname =>
    findSomeM?_map_eq fun j hj => ?_
  rw [List.mem_reverse, List.mem_range] at hi hj
  have hlt : i < r.length := Nat.lt_of_lt_of_le hi hlevels
  obtain ⟨x, k, hdrop⟩ := exists_drop_eq_cons_append (Nat.le_of_lt_succ hj) hlt
  rw [question_ofSegments hsegments ha hlt hdrop (Nat.le_of_lt_succ hj),
    question_ofSegments hsegments hb hlt hdrop (Nat.le_of_lt_succ hj)]
  refine h.ask_moved ?_ (fun y hy => hr y (List.mem_of_mem_drop hy)) ha hb hname _
  exact fun y hy => hsegments y (List.mem_of_mem_drop (hdrop ▸ List.mem_append_left _ hy))

/-! ## Verdicts -/

theorem verdict_of_boundaryRoot {path root : Text}
    (h : s.boundaryRoot d.boundaryMarker path = some root) :
    s.verdict d path =
      ((questions d.fileNames.texts path (levelsUpTo path (some root))).findSomeM? s.ask).map
        fun found =>
          { path, ignored := found.isSome, reason := (found.elim Reason.noMatch fun _ => .rule).word,
            boundaryRoot := some root, rule := found.map Rule.report } := by
  have hinside : ¬ s.IgnoresOutside d path := by
    rintro ⟨hnone, -⟩
    rw [h] at hnone
    cases hnone
  rw [Snapshot.verdict, if_neg hinside, h]
  cases List.findSomeM? s.ask _ with
  | error fault => rfl
  | ok found => cases found <;> rfl

/-- **The verdict goes along.** -/
theorem verdict_moved (h : SameBeneath d s s' a b) (hr : ∀ y ∈ r, Path.IsPlain y)
    (ha : ∀ y ∈ a, Path.IsSegment y) (hb : ∀ y ∈ b, Path.IsSegment y) {root : Text}
    (hroot : s.boundaryRoot d.boundaryMarker (Path.ofSegments (r ++ a)) = some root)
    (hwithin : Path.isWithin (Path.ofSegments a) root = true) :
    s'.verdict d (Path.ofSegments (r ++ b)) =
      (s.verdict d (Path.ofSegments (r ++ a))).map
        (Verdict.moved (Path.ofSegments a) (Path.ofSegments b)) := by
  have hsegments : ∀ y ∈ r, Path.IsSegment y := fun y hy => (hr y hy).1
  have hra : ∀ y ∈ r ++ a, Path.IsSegment y := List.forall_mem_append.mpr ⟨hsegments, ha⟩
  have hrb : ∀ y ∈ r ++ b, Path.IsSegment y := List.forall_mem_append.mpr ⟨hsegments, hb⟩
  obtain ⟨i, hi, rfl, hroot'⟩ := h.exists_boundaryRoot hr ha hb hroot hwithin
  have hlevels := levelsUpTo_ofSegments hra (i := i) (by rw [List.length_append]; omega)
  have hlevels' := levelsUpTo_ofSegments hrb (i := i) (by rw [List.length_append]; omega)
  have hpath := Path.rebase_ofSegments hsegments ha hb
  have hmoved_root : Path.rebase (Path.ofSegments a) (Path.ofSegments b)
      (Path.ofSegments ((r ++ a).drop (i + 1))) = Path.ofSegments ((r ++ b).drop (i + 1)) := by
    rw [List.drop_append_of_le_length hi, List.drop_append_of_le_length hi]
    exact Path.rebase_ofSegments (fun y hy => hsegments y (List.mem_of_mem_drop hy)) ha hb
  rw [verdict_of_boundaryRoot hroot, verdict_of_boundaryRoot hroot', hlevels, hlevels',
    h.findSomeM?_questions hr ha hb hi]
  cases List.findSomeM? s.ask _ with
  | error fault => rfl
  | ok found =>
    refine congrArg Except.ok ?_
    rw [Verdict.moved]
    dsimp only
    rw [hpath, Option.map_some, hmoved_root]
    cases found <;> rfl

end Snapshot.SameBeneath

/-- The boundary root that is looked for on a disk is that of the snapshot it shows. -/
theorem Chain.findBoundaryRoot_of_shows {σ : Type} {disk : Disk σ} {w : σ} {s : Snapshot}
    (h : disk.Shows w s) (marker path : Text) :
    (findBoundaryRoot disk marker path w).1 = s.boundaryRoot marker path := by
  obtain ⟨R, hstep, hw⟩ := h.inStep
  rw [← Resolve.findBoundaryRoot_still s marker path ⟨0, [], []⟩]
  exact (hstep.firstWithMarker marker (Path.ancestors path) (hw _)).1

/-- **A verdict goes along with its tree.** Where the boundary root of a path lies at or beneath a
directory, and another disk holds the same beneath another directory, the check of the same relative path
there comes to the same verdict, with nothing but the directory replaced. -/
theorem Resolve.verdict_check_moved {σ σ' : Type} {disk : Disk σ} {disk' : Disk σ'} {w : σ} {w' : σ'}
    {s s' : Snapshot} (h : disk.Shows w s) (h' : disk'.Shows w' s') (settings : Settings)
    (around : Surroundings) (a b r : List Text) (ha : ∀ x ∈ a, Path.IsPlain x)
    (hb : ∀ x ∈ b, Path.IsPlain x) (hr : ∀ x ∈ r, Path.IsPlain x)
    (hnormal : Path.normalize around (Path.ofSegments (r ++ a)) = .ok (Path.ofSegments (r ++ a)))
    (hnormal' : Path.normalize around (Path.ofSegments (r ++ b)) = .ok (Path.ofSegments (r ++ b)))
    (hsame : s.SameBeneath settings.toDiscovery s' a b) {root : Text}
    (hroot : (Chain.findBoundaryRoot disk settings.boundaryMarker (Path.ofSegments (r ++ a)) w).1 = some root)
    (hwithin : Path.isWithin (Path.ofSegments a) root = true) :
    (checkAnew disk' settings around (Path.ofSegments (r ++ b)) w').map (·.verdict) =
      (checkAnew disk settings around (Path.ofSegments (r ++ a)) w).map
        (·.verdict.moved (Path.ofSegments a) (Path.ofSegments b)) := by
  have hafter := map_answer_check h' settings (Path.isCanonical_of_normalize hnormal') id
  have hbefore := map_answer_check h settings (Path.isCanonical_of_normalize hnormal)
    (Verdict.moved (Path.ofSegments a) (Path.ofSegments b))
  rw [Except.map_id] at hafter
  rw [Chain.findBoundaryRoot_of_shows h] at hroot
  rw [checkAnew_of_ok _ _ hnormal, checkAnew_of_ok _ _ hnormal', hbefore]
  exact hafter.trans (hsame.verdict_moved hr (fun x hx => (ha x hx).1) (fun x hx => (hb x hx).1) hroot
    hwithin)

/-! ## Files in two places -/

theorem lookup_ofSegments {files : List (List Text × List Text)} {p : List Text}
    (hfiles : ∀ f ∈ files, ∀ y ∈ f.1, Path.IsSegment y) (ha : ∀ y ∈ a, Path.IsSegment y)
    (hp : ∀ y ∈ p, Path.IsSegment y) :
    (files.map fun f => (Path.ofSegments (f.1 ++ a), f.2)).lookup (Path.ofSegments (p ++ a)) =
      files.lookup p := by
  induction files with
  | nil => rfl
  | cons f files ih =>
    have hkey : (Path.ofSegments (p ++ a) == Path.ofSegments (f.1 ++ a)) = (p == f.1) := by
      rw [Bool.eq_iff_iff, beq_iff_eq, beq_iff_eq]
      constructor
      · intro h
        exact List.append_cancel_right (Path.ofSegments_injective (List.forall_mem_append.mpr ⟨hp, ha⟩)
          (List.forall_mem_append.mpr ⟨hfiles f List.mem_cons_self, ha⟩) h)
      · rintro rfl
        rfl
    rw [List.map_cons, List.lookup_cons, List.lookup_cons, hkey,
      ih fun g hg => hfiles g (List.mem_cons_of_mem _ hg)]

/-- The same files beneath two directories. -/
theorem Snapshot.SameBeneath.ofFiles_map (d : Discovery) {files : List (List Text × List Text)}
    (hfiles : ∀ f ∈ files, ∀ y ∈ f.1, Path.IsSegment y) (hmarker : Path.IsSegment d.boundaryMarker)
    (ha : ∀ y ∈ a, Path.IsSegment y) (hb : ∀ y ∈ b, Path.IsSegment y) :
    (ofFiles (files.map fun f => (Path.ofSegments (f.1 ++ a), f.2))).SameBeneath d
      (ofFiles (files.map fun f => (Path.ofSegments (f.1 ++ b), f.2))) a b := by
  have hlookup : ∀ c, (∀ y ∈ c, Path.IsSegment y) → ∀ m, (∀ y ∈ m, Path.IsPlain y) →
      ∀ name, Path.IsSegment name →
        (files.map fun f => (Path.ofSegments (f.1 ++ c), f.2)).lookup
          (Path.join (Path.ofSegments (m ++ c)) name) = files.lookup (name :: m) := by
    intro c hc m hm name hname
    have hsegments : ∀ y ∈ m, Path.IsSegment y := fun y hy => (hm y hy).1
    rw [Path.join_ofSegments (List.forall_mem_append.mpr ⟨hsegments, hc⟩)]
    exact lookup_ofSegments hfiles hc (List.forall_mem_cons.mpr ⟨hname, hsegments⟩)
  refine ⟨fun m hm => ?_, fun m hm name hname => ?_, fun m hm name hname => ?_⟩
  · simp only [ofFiles, hlookup a ha m hm _ hmarker, hlookup b hb m hm _ hmarker]
  · have hsegment := d.fileNames.isSegment_of_mem_texts hname
    simp only [ofFiles, hlookup a ha m hm _ hsegment, hlookup b hb m hm _ hsegment]
  · have hsegment := d.fileNames.isSegment_of_mem_texts hname
    simp only [ofFiles, hlookup a ha m hm _ hsegment, hlookup b hb m hm _ hsegment]

/-- A tree beneath a directory that is moved to the root. -/
theorem Resolve.verdict_check_moved_root :
    let tree := [([".git".toList], []), ([".aiignore".toList], ["*.log".toList])]
    let moved := Snapshot.ofFiles (tree.map fun f => (Path.ofSegments (f.1 ++ []), f.2))
    (checkAnew (Timeline.still moved).disk .default .atRoot "/b/x.log".toList ⟨0, [], []⟩).map
        (·.verdict) =
      .ok { path := "/b/x.log".toList, ignored := true, reason := Reason.rule.word,
            boundaryRoot := some "/".toList,
            rule := some { source := "/.aiignore".toList, line := 1, raw := "*.log".toList,
                           pattern := "*.log".toList, basenameOnly := true } } := by
  intro tree moved
  have hsame : Snapshot.SameBeneath Settings.default.toDiscovery
      (.ofFiles (tree.map fun f => (Path.ofSegments (f.1 ++ ["r".toList]), f.2))) moved ["r".toList] [] :=
    .ofFiles_map _ (by decide) (by decide) (by decide) (by decide)
  have hroot : (Chain.findBoundaryRoot (Timeline.still (.ofFiles (tree.map fun f =>
      (Path.ofSegments (f.1 ++ ["r".toList]), f.2)))).disk Settings.default.boundaryMarker
        (Path.ofSegments ["x.log".toList, "b".toList, "r".toList]) ⟨0, [], []⟩).1 =
      some "/r".toList := by decide +kernel
  have hmoved := verdict_check_moved (Timeline.still_shows _ ⟨0, [], []⟩)
    (Timeline.still_shows moved ⟨0, [], []⟩) .default .atRoot ["r".toList] []
    ["x.log".toList, "b".toList] (by decide) (by decide) (by decide) (by decide +kernel)
    (by decide +kernel) hsame hroot (by decide +kernel)
  exact hmoved.trans (by decide +kernel)

/-- A marker may lead out of a tree. Then an empty directory is a boundary root where another one is
none. -/
theorem Resolve.verdict_check_not_moved :
    let entries : List (Tree.Place × Tree.Entry) :=
      [(["a".toList], .directory 1000), (["x".toList, "a".toList], .directory 1001),
        (["b".toList, "a".toList], .directory 1002), (["c".toList], .directory 1003)]
    let t : Tree := { entries := .ofList entries, nextInode := 1004 }
    let settings := { Settings.default with boundaryMarker := "../x".toList }
    let around := Surroundings.atRoot
    let root (path : Text) :=
      (checkAnew Tree.disk settings around path t).map (·.verdict.boundaryRoot)
    (∀ directory ∈ [["b".toList, "a".toList], ["c".toList]], ∀ x m,
      t.entries[x :: m ++ directory]? = none) ∧
    (∀ path ∈ ["/a/b/t".toList, "/c/t".toList], Path.normalize around path = .ok path) ∧
    root "/a/b/t".toList = .ok (some "/a/b".toList) ∧ root "/c/t".toList = .ok none := by
  intro entries t settings around root
  refine ⟨?_, by decide +kernel, by decide +kernel, by decide +kernel⟩
  intro directory hdirectory x m
  refine Std.TreeMap.getElem?_ofList_of_contains_eq_false ?_
  rw [List.contains_eq_mem, decide_eq_false_iff_not]
  simp only [List.mem_cons, List.not_mem_nil, or_false] at hdirectory
  rcases hdirectory with rfl | rfl
  · cases m <;> simp [entries]
  · cases m <;> simp [entries]

end PathIgnore
