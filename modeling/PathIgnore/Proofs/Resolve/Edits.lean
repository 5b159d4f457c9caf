import Mathlib.Control.Monad.Basic
import PathIgnore.Proofs.Resolve.Asking
import PathIgnore.Proofs.Rule.Edits

/-!
# Verdicts after edits

Whether a path is ignored is one long disjunction: over the files of the chain and the directories inward
of each, does a rule of the file decide (`map_ignored_verdict`)? A fault of a path cuts it short. Editing
the lines of files changes single terms (`Edited.ask`), and changing the order of the names changes the
order of the terms. So the yes or no of an answer is kept, or moves in one direction.
-/

namespace PathIgnore

/-! ## Disjunctions that may fail -/

section Disjunction

variable {ε α β : Type}

theorem map_isSome_findSomeM? (g : α → Except ε (Option β)) (l : List α) :
    (l.findSomeM? g).map Option.isSome = l.anyM fun x => (g x).map Option.isSome := by
  induction l with
  | nil => rfl
  | cons a l ih =>
    rw [List.findSomeM?_cons, List.anyM, ← ih]
    cases g a with
    | error e => rfl
    | ok found => cases found <;> rfl

theorem anyM_eq_ok_false_iff {f : α → Except ε Bool} {l : List α} :
    l.anyM f = .ok false ↔ ∀ x ∈ l, f x = .ok false := by
  induction l with
  | nil => exact iff_of_true rfl fun x hx => absurd hx List.not_mem_nil
  | cons a l ih =>
    rw [List.anyM, List.forall_mem_cons, ← ih]
    cases f a with
    | error e => exact iff_of_false (by simp [bind, Except.bind]) (by simp)
    | ok found =>
      cases found with
      | false => exact (and_iff_right rfl).symm
      | true => exact iff_of_false (by simp [bind, Except.bind, pure, Except.pure]) (by simp)

/-- Terms that turn true do no harm. -/
theorem anyM_eq_ok_true_of_le {f f' : α → Except ε Bool} {l : List α}
    (hle : ∀ x ∈ l, f' x = f x ∨ f' x = .ok true) (h : l.anyM f = .ok true) :
    l.anyM f' = .ok true := by
  induction l with
  | nil => cases h
  | cons a l ih =>
    rw [List.anyM] at h ⊢
    rcases hle a List.mem_cons_self with heq | htrue
    · rw [heq]
      cases hf : f a with
      | error e =>
        rw [hf] at h
        cases h
      | ok found =>
        rw [hf] at h
        cases found with
        | true => rfl
        | false => exact ih (fun x hx => hle x (List.mem_cons_of_mem _ hx)) h
    · rw [htrue]
      rfl

end Disjunction

/-! ## Answers as disjunctions -/

/-- Would the file, if it had these lines, decide about the path? -/
def Question.isDecidedBy (q : Question) (lines : List Text) : Bool :=
  ((RuleSet.ofLines q.file lines).decisive q.path q.isDirectory).isSome

/-- Does some rule of the file decide about the path? -/
def Snapshot.answersYes (s : Snapshot) (q : Question) : Except PathFault Bool :=
  (s.ask q).map Option.isSome

namespace Snapshot

variable {s s' : Snapshot} {d : Discovery} {path : Text}

/-- **Whether a path is ignored is a disjunction over its questions.** -/
theorem map_ignored_verdict (s : Snapshot) (d : Discovery) (path : Text) :
    (s.verdict d path).map (·.ignored) =
      if s.IgnoresOutside d path then .ok true
      else (questions d.fileNames.texts path
        (levelsUpTo path (s.boundaryRoot d.boundaryMarker path))).anyM s.answersYes := by
  rw [verdict]
  by_cases houtside : s.IgnoresOutside d path
  · rw [if_pos houtside, if_pos houtside]
    rfl
  · rw [if_neg houtside, if_neg houtside]
    show _ = List.anyM (fun q => (s.ask q).map Option.isSome) _
    rw [← map_isSome_findSomeM?]
    cases List.findSomeM? s.ask _ with
    | error fault => rfl
    | ok found => cases found <;> rfl

/-- What is reported besides: the text of the line that decides. -/
theorem map_raw_verdict (s : Snapshot) (d : Discovery) (path : Text) :
    (s.verdict d path).map (fun v => (v.ignored, v.rule.map (·.raw))) =
      if s.IgnoresOutside d path then .ok (true, none)
      else ((questions d.fileNames.texts path
        (levelsUpTo path (s.boundaryRoot d.boundaryMarker path))).findSomeM? fun q =>
          (s.ask q).map (Option.map (·.raw))).map fun raw? => (raw?.isSome, raw?) := by
  rw [verdict]
  by_cases houtside : s.IgnoresOutside d path
  · rw [if_pos houtside, if_pos houtside]
    rfl
  · rw [if_neg houtside, if_neg houtside, ← map_findSomeM?]
    cases List.findSomeM? s.ask _ with
    | error fault => rfl
    | ok found => cases found <;> rfl

end Snapshot

/-! ## Edited disks -/

/-- The second disk is the first one with the lines of files edited in this way, or left as they are. -/
structure Snapshot.Edited (edit : List Text → List Text → Prop) (s s' : Snapshot) : Prop where
  has : ∀ path, s'.has path = s.has path
  stat : ∀ path, (s'.stat path).map Option.isSome = (s.stat path).map Option.isSome
  read : ∀ path, s'.read path = s.read path ∨ ∃ old new, edit old new ∧
    s.read path = .ok (.lines old) ∧ s'.read path = .ok (.lines new)

namespace Snapshot

variable {edit : List Text → List Text → Prop} {s s' : Snapshot} {d : Discovery} {path : Text}

theorem Edited.boundaryRoot_eq (h : s.Edited edit s') (marker path : Text) :
    s'.boundaryRoot marker path = s.boundaryRoot marker path := by
  simp only [boundaryRoot, h.has]

theorem Edited.ignoresOutside_iff (h : s.Edited edit s') :
    s'.IgnoresOutside d path ↔ s.IgnoresOutside d path := by
  rw [IgnoresOutside, IgnoresOutside, h.boundaryRoot_eq]

/-- **An edit changes at most how the lines of a file decide.** -/
theorem Edited.ask (h : s.Edited edit s') (q : Question) :
    s'.ask q = s.ask q ∨ ∃ old new, edit old new ∧
      s.ask q = .ok ((RuleSet.ofLines q.file old).decisive q.path q.isDirectory) ∧
        s'.ask q = .ok ((RuleSet.ofLines q.file new).decisive q.path q.isDirectory) := by
  rw [ask_eq_map_linesOf, ask_eq_map_linesOf, linesOf, linesOf, h.stat]
  rcases h.read q.file with hread | ⟨old, new, hedit, hold, hnew⟩
  · rw [hread]
    exact .inl rfl
  · rw [hold, hnew]
    cases (s.stat q.file).map Option.isSome with
    | error fault => exact .inl rfl
    | ok there =>
      cases there with
      | false => exact .inl rfl
      | true => exact .inr ⟨old, new, hedit, rfl, rfl⟩

theorem Edited.answersYes (h : s.Edited edit s') (q : Question) :
    s'.answersYes q = s.answersYes q ∨ ∃ old new, edit old new ∧
      s.answersYes q = .ok (q.isDecidedBy old) ∧ s'.answersYes q = .ok (q.isDecidedBy new) := by
  rw [Snapshot.answersYes, Snapshot.answersYes]
  rcases h.ask q with heq | ⟨old, new, hedit, hold, hnew⟩
  · rw [heq]
    exact .inl rfl
  · rw [hold, hnew]
    exact .inr ⟨old, new, hedit, rfl, rfl⟩

/-! ## Yes and no -/

theorem Edited.map_ignored_verdict (h : s.Edited edit s') (d : Discovery) (path : Text) :
    (s'.verdict d path).map (·.ignored) =
      if s.IgnoresOutside d path then .ok true
      else (questions d.fileNames.texts path
        (levelsUpTo path (s.boundaryRoot d.boundaryMarker path))).anyM s'.answersYes := by
  simp only [Snapshot.map_ignored_verdict, h.ignoresOutside_iff, h.boundaryRoot_eq]

theorem ignored_of_perm (h : s.Edited List.Perm s') :
    (s'.verdict d path).map (·.ignored) = (s.verdict d path).map (·.ignored) := by
  have hsame : s'.answersYes = s.answersYes := by
    funext q
    rcases h.answersYes q with heq | ⟨old, new, hperm, hold, hnew⟩
    · exact heq
    · rw [hold, hnew]
      exact congrArg Except.ok (RuleSet.isSome_decisive_of_perm hperm)
  rw [h.map_ignored_verdict, hsame, Snapshot.map_ignored_verdict]

theorem ignored_of_inserts (h : s.Edited (Inserts (Line.GivesRule false)) s')
    (hignored : (s.verdict d path).map (·.ignored) = .ok true) :
    (s'.verdict d path).map (·.ignored) = .ok true := by
  rw [h.map_ignored_verdict]
  rw [Snapshot.map_ignored_verdict] at hignored
  split
  · rfl
  · next houtside =>
    rw [if_neg houtside] at hignored
    refine anyM_eq_ok_true_of_le (fun q _ => ?_) hignored
    rcases h.answersYes q with heq | ⟨old, new, hinserts, hold, hnew⟩
    · exact .inl heq
    · rw [hold, hnew]
      cases hnow : q.isDecidedBy new with
      | true => exact .inr rfl
      | false =>
        -- What the new lines do not decide, the old ones did not decide either.
        left
        cases hbefore : q.isDecidedBy old with
        | false => rfl
        | true =>
          have hstill : q.isDecidedBy new = true := RuleSet.isSome_decisive_of_inserts hinserts hbefore
          rw [hnow] at hstill
          cases hstill

theorem not_ignored_of_inserts (h : s.Edited (Inserts (Line.GivesRule true)) s')
    (hkept : (s.verdict d path).map (·.ignored) = .ok false) :
    (s'.verdict d path).map (·.ignored) = .ok false := by
  rw [h.map_ignored_verdict]
  rw [Snapshot.map_ignored_verdict] at hkept
  split at hkept
  · cases hkept
  · next houtside =>
    rw [if_neg houtside, anyM_eq_ok_false_iff]
    rw [anyM_eq_ok_false_iff] at hkept
    intro q hq
    have hno := hkept q hq
    rcases h.answersYes q with heq | ⟨old, new, hinserts, hold, hnew⟩
    · rw [heq, hno]
    · rw [hold] at hno
      rw [hnew]
      refine congrArg Except.ok (Bool.eq_false_iff.mpr fun hdecides => ?_)
      have hbefore : q.isDecidedBy old = true :=
        RuleSet.isSome_decisive_of_inserts_negated hinserts hdecides
      rw [hbefore] at hno
      cases hno

theorem raw_of_inserts (h : s.Edited (Inserts Line.GivesNoRule) s') (d : Discovery) (path : Text) :
    (s'.verdict d path).map (fun v => (v.ignored, v.rule.map (·.raw))) =
      (s.verdict d path).map fun v => (v.ignored, v.rule.map (·.raw)) := by
  have hask : ∀ q, (s'.ask q).map (Option.map (·.raw)) = (s.ask q).map (Option.map (·.raw)) := by
    intro q
    rcases h.ask q with heq | ⟨old, new, hinserts, hold, hnew⟩
    · rw [heq]
    · rw [hold, hnew]
      exact congrArg Except.ok (RuleSet.map_raw_decisive_of_inserts hinserts)
  simp only [map_raw_verdict, h.ignoresOutside_iff, h.boundaryRoot_eq, hask]

end Snapshot

/-! ## The order of the names -/

/-- The settings differ at most in the order of the names. -/
structure Discovery.SameButOrder (d d' : Discovery) : Prop where
  fileNames : d'.fileNames.texts.Perm d.fileNames.texts
  boundaryMarker : d'.boundaryMarker = d.boundaryMarker
  ignoreOutside : d'.ignoreOutside = d.ignoreOutside

namespace Discovery.SameButOrder

variable {d d' : Discovery}

theorem symm (h : d.SameButOrder d') : d'.SameButOrder d :=
  ⟨h.fileNames.symm, h.boundaryMarker.symm, h.ignoreOutside.symm⟩

theorem ignoresOutside_iff (h : d.SameButOrder d') {s : Snapshot} {path : Text} :
    s.IgnoresOutside d' path ↔ s.IgnoresOutside d path := by
  rw [Snapshot.IgnoresOutside, Snapshot.IgnoresOutside, h.boundaryMarker, h.ignoreOutside]

theorem mem_questions_iff (h : d.SameButOrder d') {path : Text} {levels : Nat} {q : Question} :
    q ∈ questions d'.fileNames.texts path levels ↔ q ∈ questions d.fileNames.texts path levels := by
  simp only [questions, List.mem_flatMap, h.fileNames.mem_iff]

/-- **What no file decides about, no file decides about in another order.** -/
theorem not_ignored (h : d.SameButOrder d') {s : Snapshot} {path : Text} {ignored : Bool}
    (hbefore : (s.verdict d path).map (·.ignored) = .ok false)
    (hafter : (s.verdict d' path).map (·.ignored) = .ok ignored) : ignored = false := by
  rw [Snapshot.map_ignored_verdict] at hbefore hafter
  simp only [h.ignoresOutside_iff, h.boundaryMarker] at hafter
  split at hbefore
  · cases hbefore
  · next houtside =>
    rw [anyM_eq_ok_false_iff] at hbefore
    have hnone : ∀ q ∈ questions d'.fileNames.texts path
        (levelsUpTo path (s.boundaryRoot d.boundaryMarker path)), s.answersYes q = .ok false :=
      fun q hq => hbefore q (h.mem_questions_iff.mp hq)
    rw [if_neg houtside, anyM_eq_ok_false_iff.mpr hnone] at hafter
    cases hafter
    rfl

theorem ignored_eq (h : d.SameButOrder d') {s : Snapshot} {path : Text} {before after : Bool}
    (hbefore : (s.verdict d path).map (·.ignored) = .ok before)
    (hafter : (s.verdict d' path).map (·.ignored) = .ok after) : after = before := by
  cases before with
  | false => exact h.not_ignored hbefore hafter
  | true =>
    cases after with
    | true => rfl
    | false => exact (h.symm.not_ignored hafter hbefore).symm

end Discovery.SameButOrder

/-! ## Answers -/

/-- **What edits do to a yes or no.** It stays where lines change places, and where names change places
and both checks answer at all. A further rule that is not negated never turns a yes into a no, and a
further one that is negated never a no into a yes. With a further line without a rule, the text of the
rule that is reported stays as well. -/
theorem Resolve.ignored_of_edited {σ σ' : Type} {disk : Disk σ} {disk' : Disk σ'} {w : σ} {w' : σ'}
    {s s' : Snapshot} (h : disk.Shows w s) (h' : disk'.Shows w' s') (settings : Settings)
    (around : Surroundings) (target : Text) :
    let before := checkAnew disk settings around target w
    let after := checkAnew disk' settings around target w'
    let ignored (answer : Except PathFault Resolution) := answer.map (·.verdict.ignored)
    (s.Edited List.Perm s' → ignored after = ignored before) ∧
    (∀ settings' : Settings, settings.toDiscovery.SameButOrder settings'.toDiscovery → ∀ r r',
      before = .ok r → checkAnew disk settings' around target w = .ok r' →
        r'.verdict.ignored = r.verdict.ignored) ∧
    (s.Edited (Inserts (Line.GivesRule false)) s' → ignored before = .ok true →
      ignored after = .ok true) ∧
    (s.Edited (Inserts (Line.GivesRule true)) s' → ignored before = .ok false →
      ignored after = .ok false) ∧
    (s.Edited (Inserts Line.GivesNoRule) s' →
      after.map (fun r => (r.verdict.ignored, r.verdict.rule.map (·.raw))) =
        before.map fun r => (r.verdict.ignored, r.verdict.rule.map (·.raw))) := by
  intro before after ignored
  cases hnormal : Path.normalize around target with
  | error fault =>
    have hbefore : before = .error fault := checkAnew_of_error disk settings hnormal w
    have hsame : after = before :=
      (checkAnew_of_error disk' settings hnormal w').trans hbefore.symm
    refine ⟨fun _ => congrArg ignored hsame, fun settings' _ r r' hr => ?_,
      fun _ hyes => (congrArg ignored hsame).trans hyes,
      fun _ hno => (congrArg ignored hsame).trans hno, fun _ => congrArg _ hsame⟩
    cases hbefore.symm.trans hr
  | ok path =>
    have hpath := Path.isCanonical_of_normalize hnormal
    have hbefore : ignored before = (s.verdict settings.toDiscovery path).map (·.ignored) :=
      (congrArg ignored (checkAnew_of_ok disk settings hnormal w)).trans
        (map_answer_check h settings hpath (·.ignored))
    have hafter : ignored after = (s'.verdict settings.toDiscovery path).map (·.ignored) :=
      (congrArg ignored (checkAnew_of_ok disk' settings hnormal w')).trans
        (map_answer_check h' settings hpath (·.ignored))
    refine ⟨?_, ?_, ?_, ?_, ?_⟩
    · intro hedited
      rw [hbefore, hafter, Snapshot.ignored_of_perm hedited]
    · intro settings' hsame r r' hr hr'
      have hother := map_answer_check h settings' hpath (·.ignored)
      rw [← checkAnew_of_ok disk settings' hnormal, hr'] at hother
      rw [hr] at hbefore
      exact hsame.ignored_eq hbefore.symm hother.symm
    · intro hedited hyes
      rw [hbefore] at hyes
      rw [hafter, Snapshot.ignored_of_inserts hedited hyes]
    · intro hedited hno
      rw [hbefore] at hno
      rw [hafter, Snapshot.not_ignored_of_inserts hedited hno]
    · intro hedited
      have hraw := Snapshot.raw_of_inserts hedited settings.toDiscovery path
      rw [← map_answer_check h settings hpath, ← map_answer_check h' settings hpath,
        ← checkAnew_of_ok disk settings hnormal, ← checkAnew_of_ok disk' settings hnormal] at hraw
      exact hraw

theorem Snapshot.ofFiles_edited {edit : List Text → List Text → Prop} {old new : List Text}
    (h : edit old new) (file : Text) (rest : List (Text × List Text)) :
    (ofFiles ((file, old) :: rest)).Edited edit (ofFiles ((file, new) :: rest)) := by
  have hlookup : ∀ path lines, ((file, lines) :: rest).lookup path =
      if path = file then some lines else rest.lookup path := by
    intro path lines
    rw [List.lookup_cons, beq_eq_decide]
    by_cases hfile : path = file <;> simp [hfile]
  refine ⟨fun path => ?_, fun path => ?_, fun path => ?_⟩
  · simp only [ofFiles, hlookup]
    split <;> rfl
  · simp only [ofFiles, hlookup]
    split <;> simp [Except.map]
  · simp only [ofFiles, hlookup]
    split
    · exact .inr ⟨old, new, h, rfl, rfl⟩
    · exact .inl rfl

theorem Resolve.ignored_of_edited_log :
    let answer (lines : List Text) :=
      checkAnew (Timeline.still (.ofFiles [("/r/.aiignore".toList, lines), ("/r/.git".toList, [])])).disk
        .default .atRoot "/r/b/x.log".toList ⟨0, [], []⟩
    let ignored (lines : List Text) := (answer lines).map (·.verdict.ignored)
    ignored ["*.tmp".toList, "*.log".toList] = ignored ["*.log".toList, "*.tmp".toList] ∧
    ignored ["*.tmp".toList, "*.log".toList] = .ok true ∧
    ignored ["*.tmp".toList, "!b/".toList] = .ok false ∧
    (answer ["# logs".toList, "*.log".toList]).map
      (fun r => (r.verdict.ignored, r.verdict.rule.map (·.raw))) = .ok (true, some "*.log".toList) := by
  intro answer ignored
  have hedited := fun old new => ignored_of_edited
    (Timeline.still_shows (.ofFiles [("/r/.aiignore".toList, old), ("/r/.git".toList, [])]) ⟨0, [], []⟩)
    (Timeline.still_shows (.ofFiles [("/r/.aiignore".toList, new), ("/r/.git".toList, [])]) ⟨0, [], []⟩)
    .default .atRoot "/r/b/x.log".toList
  have hrule : ∀ raw negated, (Rule.ofLine? [] 0 raw).map (·.negated) = some negated →
      Line.GivesRule negated raw := by
    intro raw negated h
    obtain ⟨r, hr, hnegated⟩ := Option.map_eq_some_iff.mp h
    exact ⟨[], 0, r, Rule.ofLine?_eq_some_iff.mp hr, hnegated⟩
  refine ⟨?_, ?_, ?_, ?_⟩
  · exact (hedited _ _).1 (Snapshot.ofFiles_edited (.swap _ _ _) _ _)
  · exact (hedited ["*.log".toList] _).2.2.1 (Snapshot.ofFiles_edited
      ⟨[], _, _, hrule _ _ (by decide +kernel), rfl, rfl⟩ _ _) (by decide +kernel)
  · exact (hedited ["*.tmp".toList] _).2.2.2.1 (Snapshot.ofFiles_edited
      ⟨["*.tmp".toList], _, [], hrule _ _ (by decide +kernel), rfl, rfl⟩ _ _) (by decide +kernel)
  · have hnone : Line.GivesNoRule "# logs".toList :=
      ⟨[], 0, fun r hr => nomatch (Rule.ofLine_eq_ok_none_iff.mpr (by decide)).symm.trans hr⟩
    have hraw := (hedited ["*.log".toList] _).2.2.2.2
      (Snapshot.ofFiles_edited ⟨[], _, _, hnone, rfl, rfl⟩ _ _)
    exact hraw.trans (by decide +kernel)

/-- The order of the names does matter where one of them is no name of a file: who asks for it first ends
in the fault. -/
theorem Resolve.fault_of_sameButOrder :
    let t : Tree :=
      { entries := .ofList
          [(["r".toList], Tree.Entry.directory 1000),
            ([".git".toList, "r".toList], .directory 1001),
            ([".aiignore".toList, "r".toList], .file ⟨"t\n".toUTF8, 1002, 420, 0⟩)]
        nextInode := 1003 }
    let ignored (settings : Settings) : Except PathFault Bool :=
      (checkAnew Tree.disk settings .atRoot "/r/t".toList t).map (·.verdict.ignored)
    ∃ settings settings' : Settings, settings.toDiscovery.SameButOrder settings'.toDiscovery ∧
      settings.fileNames.texts = [".aiignore".toList, ['x', '\x00']] ∧
        settings.boundaryMarker = ".git".toList ∧ ignored settings = .ok true ∧
          ignored settings' = .error .embeddedNul := by
  intro t ignored
  let first : FileName := ⟨".aiignore".toList, by decide +kernel⟩
  let second : FileName := ⟨['x', '\x00'], by decide +kernel⟩
  refine ⟨{ Settings.default with fileNames := ⟨[first, second], by simp, by decide +kernel⟩ },
    { Settings.default with fileNames := ⟨[second, first], by simp, by decide +kernel⟩ },
    ⟨.swap _ _ _, rfl, rfl⟩, rfl, rfl, ?_, ?_⟩
  · decide +kernel
  · decide +kernel

end PathIgnore
