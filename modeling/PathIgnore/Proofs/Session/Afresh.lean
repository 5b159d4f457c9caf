import PathIgnore.Proofs.Path.Canonical
import PathIgnore.Proofs.Resolve.Reference
import PathIgnore.Proofs.Session.Coherence

/-!
# Verdicts do not remember

`ChecksAfreshUntil` says that, wherever a run has come to, a check while the disk stands still gives the
verdict that the snapshot of that moment gives without a cache.

As for loads, this holds where no fingerprint returns after a change, and a new fingerprint at every
change is not enough. What happens after the check plays no part, so the assumption on changes reaches
only to the end of the check.
-/

namespace PathIgnore.Timeline

/-- Wherever a run comes to, a check that ends by the last moment, and during which the disk does not
change, gives the verdict that the disk of that moment gives to the normal form of the target. -/
def ChecksAfreshUntil (t : Timeline) (last : Nat) : Prop :=
  ∀ around s target, t.Reaches around s →
    let r := Session.step t.disk around (.check target none) s
    r.session.disk.now ≤ last →
      t.StandsStill (t s.disk.now) s.disk.now r.session.disk.now →
        r.answer = Session.answerOf .verdict
          ((Path.normalize around target).bind ((t s.disk.now).verdict s.settings.toDiscovery))

theorem answerOf_map {α β : Type} (f : β → Answer) (g : α → β) (x : Except PathFault α) :
    Session.answerOf f (x.map g) = Session.answerOf (fun a => f (g a)) x := by
  cases x <;> rfl

/-- **Where no fingerprint returns after a change, no verdict hangs on what was asked before.** -/
theorem checksAfresh_of_neverReturns {t : Timeline} {last : Nat} (ht : t.NeverReturnsUntil last) :
    t.ChecksAfreshUntil last := by
  intro around s target hs r hlast hstill
  cases hnormal : Path.normalize around target with
  | error fault =>
    have hanswer : (s.checked t.disk around target none s.cache).answer = .error fault := by
      rw [Session.checked, Resolve.answer_announce, Session.resolution_of_error t.disk s hnormal]
    exact congrArg (Session.answerOf fun resolution => .verdict resolution.verdict) hanswer
  | ok path =>
    have hpath := Path.isCanonical_of_normalize hnormal
    obtain ⟨l, hl, rfl⟩ := hpath.exists_segments
    have hchecked : s.checked t.disk around target none s.cache =
        Resolve.check t.disk s.settings (Path.ofSegments l) s.cache s.disk := by
      rw [Session.checked, Session.resolution_of_ok t.disk s hnormal]
      rfl
    have hdisk : (Resolve.resolve t.disk s.settings (Path.ofSegments l) s.cache s.disk).disk =
        r.session.disk := by
      refine (congrArg Prod.snd (Resolve.state_announce s.settings.toDiagnostics _)).symm.trans ?_
      exact (congrArg Traced.disk hchecked).symm
    have hnow := t.effect_now.resolve s.settings (Path.ofSegments l) s.cache s.disk
    rw [Traced.state, hdisk] at hnow
    have hreturns := ht.mono hlast
    have hsettles := Resolve.resolve_settles hreturns hl (hs.coherent hreturns hnow).cache hstill
      (Nat.le_of_eq (congrArg Watch.now hdisk))
    rw [Except.bind, verdict_eq_map_resolution _ _ hl, answerOf_map, ← hsettles.answer,
      ← Resolve.answer_announce s.settings.toDiagnostics, ← Resolve.check, ← hchecked]
    rfl

/-- A file is written anew between two checks, and the second check goes by what is written now. -/
theorem written_checksAfresh :
    let t := written "/repo/.aiignore".toList ⟨1, 0, 2, 7, 0, 0, 0⟩ ⟨2, 0, 2, 7, 0, 0, 0⟩
      ["a".toList] ["b".toList]
    let around := Surroundings.atRoot
    let s := t.after around [.ask (.check "/repo/b".toList none), .wait 1]
      (.start ⟨0, [], []⟩ .default .shared)
    (Session.step t.disk around (.check "/repo/b".toList none) s).answer =
        Session.answerOf .verdict
          ((Path.normalize around "/repo/b".toList).bind ((t 1).verdict s.settings.toDiscovery)) ∧
      ((Path.normalize around "/repo/b".toList).bind
        ((t 1).verdict s.settings.toDiscovery)).toOption.map (·.ignored) = some true := by
  intro t around s
  have hnow : (Session.step t.disk around (.check "/repo/b".toList none) s).session.disk.now =
      s.disk.now := by decide +kernel
  constructor
  · refine checksAfresh_of_neverReturns (written_neverReturns (by decide) _) around s _ ⟨_, _, _, _, rfl⟩
      (Nat.le_refl _) ?_
    intro m hm hle
    rw [Nat.le_antisymm (hnow ▸ hle) hm]
  · decide +kernel

/-- **A fingerprint that is new at every change is not enough.** The second check goes by what the file
held when it had its fingerprint first. -/
theorem reverted_not_checksAfresh :
    let t := reverted "/repo/.aiignore".toList ⟨1, 0, 2, 7, 0, 0, 0⟩ ⟨2, 0, 2, 7, 0, 0, 0⟩
      ["a".toList] ["b".toList]
    t.Renews ∧ ¬ t.ChecksAfreshUntil 2 := by
  intro t
  refine ⟨reverted_renews (by decide), ?_⟩
  intro h
  let target := "/repo/a".toList
  let around := Surroundings.atRoot
  let s := t.after around [.ask (.check target none), .wait 2] (.start ⟨0, [], []⟩ .default .shared)
  have hnow : (Session.step t.disk around (.check target none) s).session.disk.now = s.disk.now := by
    decide +kernel
  have hafresh := h around s target ⟨_, _, _, _, rfl⟩ (by decide +kernel) fun m hm hle => by
    rw [Nat.le_antisymm (hnow ▸ hle) hm]
  have hstale : (match (Session.step t.disk around (.check target none) s).answer with
      | .verdict v => v.ignored
      | _ => false) = true := by decide +kernel
  have hreference : ((Path.normalize around target).bind
      ((t s.disk.now).verdict s.settings.toDiscovery)).toOption.map (·.ignored) = some false := by
    decide +kernel
  rw [hafresh] at hstale
  cases hverdict :
      (Path.normalize around target).bind ((t s.disk.now).verdict s.settings.toDiscovery) with
  | error fault =>
    rw [hverdict] at hreference
    cases hreference
  | ok v =>
    rw [hverdict] at hreference hstale
    have hignored : v.ignored = true := hstale
    rw [Except.toOption, Option.map_some, hignored] at hreference
    cases hreference

end PathIgnore.Timeline
