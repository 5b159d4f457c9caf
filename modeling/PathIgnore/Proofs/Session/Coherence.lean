import PathIgnore.Proofs.Cache.Coherent
import PathIgnore.Proofs.Session.Run

/-!
# Runs agree with the history of the disk

In a run, requests of every kind and changes of the disk follow each other in any order, and changes
also come between the observations of one request. `CoherentRuns` says that nevertheless every entry of
both caches agrees with the history, and that every load answers what was true while it ran.

This holds where no fingerprint returns after a change (`coherentRuns_of_neverReturns`). It is not
enough that each change comes with a new fingerprint: in `reverted_not_coherentRuns` the file gets its
first fingerprint back without another change, and an entry from before the change is served.
-/

namespace PathIgnore

/-- A new session comes to this state in some run. -/
def Timeline.Reaches (t : Timeline) (around : Surroundings) (s : Session Watch) : Prop :=
  ∃ w settings choice events, t.after around events (.start w settings choice) = s

/-- Wherever a run comes to, both caches agree with the history, and the next load answers what was
true at a moment at which it looked. -/
def Timeline.CoherentRuns (t : Timeline) : Prop :=
  ∀ around s, t.Reaches around s →
    s.Holds (Cache.Coherent t) ∧
    ∀ path quiet rules?,
      let r := Session.step t.disk around (.load path quiet) s
      r.answer = .rules rules? → t.Vouches path (s.disk.since r.session.disk) rules?

namespace Timeline

variable {t : Timeline} {around : Surroundings} {s : Session Watch}

/-- Time goes on, and what is remembered stays coherent. -/
theorem runEffect_coherent {last : Nat} (ht : t.NeverReturnsUntil last) :
    RunEffect t fun x y => x.2.now ≤ y.2.now ∧
      (y.2.now ≤ last → x.1.CoherentUntil t last → y.1.CoherentUntil t last) where
  refl := fun _ => ⟨Nat.le_refl _, fun _ hc => hc⟩
  trans := fun ⟨hxy, hfirst⟩ ⟨hyz, hsecond⟩ =>
    ⟨Nat.le_trans hxy hyz, fun hz hc => hsecond hz (hfirst (Nat.le_trans hyz hz) hc)⟩
  load := fun quiet path c w =>
    have h := Cache.loaded t.disk quiet path c w
    ⟨h.now_le, fun hlast hc => h.coherent ht hc hlast⟩
  has := fun path _ w => ⟨w.now_le_note .has path, fun _ hc => hc⟩
  forget := fun forgotten _ _ => ⟨Nat.le_refl _, fun _ hc => Cache.Every.invalidate hc forgotten⟩
  wait := fun moments _ w => ⟨Nat.le_add_right w.now moments, fun _ hc => hc⟩

/-- **After every run both caches agree with the history so far.** -/
theorem Reaches.coherent {last : Nat} (hs : t.Reaches around s) (ht : t.NeverReturnsUntil last)
    (hlast : s.disk.now ≤ last) : s.Holds (Cache.CoherentUntil t last) := by
  obtain ⟨w, settings, choice, events, rfl⟩ := hs
  refine (runEffect_coherent ht).after
    (I := fun s => s.disk.now ≤ last → s.Holds (Cache.CoherentUntil t last)) ?_ around events ?_ hlast
  · intro s s' hthrough hs hlast
    rcases hthrough with ⟨⟨hnow, hkeep⟩, hother⟩ | ⟨⟨hnow, hkeep⟩, hother⟩
    · obtain ⟨hown, hshared⟩ := hs (Nat.le_trans hnow hlast)
      exact ⟨hkeep hlast hown, hother ▸ hshared⟩
    · obtain ⟨hown, hshared⟩ := hs (Nat.le_trans hnow hlast)
      exact ⟨hother ▸ hown, hkeep hlast hshared⟩
  · exact fun _ => ⟨Cache.coherent_empty t last, Cache.coherent_empty t last⟩

/-- The answer to a request for the rules of a file is what loading them gives. -/
theorem answer_of_step_load {σ : Type} {d : Disk σ} {s : Session σ} {path : Text}
    {quiet : Option Bool} {rules? : Option RuleSet}
    (h : (Session.step d around (.load path quiet) s).answer = .rules rules?) :
    (s.cache.load d (quiet.getD s.choice.quiet) path s.disk).answer = .ok rules? :=
  Session.answerOf_rules_iff.mp h

/-- **Where no fingerprint returns after a change, all runs agree with the history.** -/
theorem coherentRuns_of_neverReturns (ht : t.NeverReturns) : t.CoherentRuns := by
  intro around s hs
  have hcoherent := fun last hlast => hs.coherent (ht last) hlast
  constructor
  · -- Entries must hold good of the future too, so there is no one last moment to choose.
    have hmax := fun last => hcoherent (max s.disk.now last) (Nat.le_max_left _ _)
    exact ⟨fun last => (hmax last).own.mono (Nat.le_max_right _ _),
      fun last => (hmax last).shared.mono (Nat.le_max_right _ _)⟩
  · intro path quiet rules? r hr
    have hloaded := Cache.loaded t.disk (quiet.getD s.choice.quiet) path s.cache s.disk
    exact hloaded.vouched (hcoherent _ hloaded.now_le).cache (Nat.le_refl _) (answer_of_step_load hr)

/-- A file that is written anew with another fingerprint is such a history. -/
theorem written_coherentRuns :
    let t := written "/repo/.aiignore".toList ⟨1, 0, 2, 7, 0, 0, 0⟩ ⟨2, 0, 2, 7, 0, 0, 0⟩
      ["a".toList] ["b".toList]
    t.NeverReturns ∧ t.CoherentRuns :=
  ⟨written_neverReturns (by decide), coherentRuns_of_neverReturns (written_neverReturns (by decide))⟩

/-- **A fingerprint that is new at every change is not enough.** The file is read, changed, given its old
fingerprint and read again. -/
theorem reverted_not_coherentRuns :
    let t := reverted "/repo/.aiignore".toList ⟨1, 0, 2, 7, 0, 0, 0⟩ ⟨2, 0, 2, 7, 0, 0, 0⟩
      ["a".toList] ["b".toList]
    t.Renews ∧ ¬ t.CoherentRuns := by
  intro t
  refine ⟨reverted_renews (by decide), ?_⟩
  intro h
  let path := "/repo/.aiignore".toList
  let around := Surroundings.atRoot
  let s := t.after around [.ask (.load path none), .wait 2] (.start ⟨0, [], []⟩ .default .shared)
  have hanswer : (Session.step t.disk around (.load path none) s).answer =
      .rules (some (.ofLines path ["a".toList])) := rfl
  have hseen : s.disk.since (Session.step t.disk around (.load path none) s).session.disk =
      [⟨.stat, path, 2⟩] := rfl
  obtain ⟨-, hloads⟩ := h around s ⟨_, _, _, _, rfl⟩
  obtain ⟨g, hg, lines, hread, hrules⟩ := hloads path none _ hanswer
  rw [hseen, List.mem_singleton] at hg
  subst hg
  cases hread
  exact absurd (congrArg RuleSet.rules hrules) (by decide +kernel)

end Timeline

end PathIgnore
