import PathIgnore.Proofs.Disk.Timeline
import PathIgnore.Proofs.Resolve.Effect
import PathIgnore.Session.Basic

/-!
# Runs of a session

A run is a sequence of requests with moments passing in between, on a disk with a history. Moments pass
within a request as well, as the delays of the `Watch` say.

Whatever a request asks, it goes through one of the two caches and leaves the other as it is
(`RunEffect.step`). So a relation that loads, looks for the marker, forgetting and waiting keep is kept
by every event of a run, and what such steps preserve holds after every run (`RunEffect.after`).
-/

namespace PathIgnore

/-- What goes on in a run: a request is answered, or moments pass. -/
inductive Event where
  | ask (request : Request)
  | wait (moments : Nat)

/-- The session after an event. -/
def Timeline.next (t : Timeline) (around : Surroundings) (s : Session Watch) : Event → Session Watch
  | .ask request => (Session.step t.disk around request s).session
  | .wait moments => s.onDisk (Watch.wait moments)

/-- The session after events. -/
def Timeline.after (t : Timeline) (around : Surroundings) (events : List Event)
    (s : Session Watch) : Session Watch :=
  events.foldl (t.next around) s

/-- One of the caches and the disk come from before to after as the relation says, and the other cache
stays. -/
def Session.Through {σ : Type} (R : Cache × σ → Cache × σ → Prop) (s s' : Session σ) : Prop :=
  R (s.ownCache, s.disk) (s'.ownCache, s'.disk) ∧ s'.sharedCache = s.sharedCache ∨
    R (s.sharedCache, s.disk) (s'.sharedCache, s'.disk) ∧ s'.ownCache = s.ownCache

/-- Both caches have the property. -/
structure Session.Holds {σ : Type} (P : Cache → Prop) (s : Session σ) : Prop where
  own : P s.ownCache
  shared : P s.sharedCache

/-- A relation that everything in a run keeps. -/
structure RunEffect (t : Timeline) (R : Cache × Watch → Cache × Watch → Prop) : Prop
    extends Effect t.disk R where
  forget : ∀ forgotten c w, R (c, w) (c.invalidate forgotten, w)
  wait : ∀ moments c w, R (c, w) (c, w.wait moments)

/-! ## Responses -/

namespace Session

variable {σ : Type} {R : Cache × σ → Cache × σ → Prop} {s : Session σ}

theorem Holds.cache {P : Cache → Prop} (h : s.Holds P) : P s.cache := by
  unfold Session.cache
  split
  · exact h.own
  · exact h.shared

theorem Through.withCache {c : Cache} (h : R (s.cache, s.disk) (c, s.disk)) :
    s.Through R (s.withCache c) := by
  unfold Session.cache at h
  unfold Session.withCache
  split at h
  · exact .inl ⟨h, rfl⟩
  · exact .inr ⟨h, rfl⟩

theorem Through.respond {α : Type} (f : α → Answer) {l : Traced σ α}
    (h : R (s.cache, s.disk) l.state) : s.Through R (s.respond f l).session := by
  unfold Session.cache at h
  unfold Session.respond Session.withCache
  split at h
  · exact .inl ⟨h, rfl⟩
  · exact .inr ⟨h, rfl⟩

theorem Through.respondShared {α : Type} (f : α → Answer) {l : Traced σ α}
    (h : R (s.sharedCache, s.disk) l.state) : s.Through R (s.respondShared f l).session :=
  .inr ⟨h, rfl⟩

end Session

/-! ## Steps and runs -/

namespace RunEffect

open Session

variable {t : Timeline} {R : Cache × Watch → Cache × Watch → Prop}

theorem resolution (h : RunEffect t R) (around : Surroundings) (s : Session Watch) (path : Text)
    (root : Option (Option Text)) (c : Cache) :
    R (c, s.disk) (s.resolution t.disk around path root c).state := by
  cases hnormal : Path.normalize around path with
  | error fault =>
    rw [resolution_of_error t.disk s hnormal]
    exact h.refl _
  | ok normal =>
    rw [resolution_of_ok t.disk s hnormal]
    cases root with
    | none => exact h.resolve s.settings normal c s.disk
    | some root => exact h.within s.settings normal root c s.disk

theorem checked (h : RunEffect t R) (around : Surroundings) (s : Session Watch) (path : Text)
    (root : Option (Option Text)) (c : Cache) :
    R (c, s.disk) (s.checked t.disk around path root c).state := by
  rw [Session.checked, Resolve.state_announce]
  exact h.resolution around s path root c

/-- **Every request goes through one of the caches.** -/
theorem step (h : RunEffect t R) (around : Surroundings) (request : Request) (s : Session Watch) :
    s.Through R (Session.step t.disk around request s).session := by
  cases request with
  | load path quiet => exact Through.respond _ (h.load _ path s.cache s.disk)
  | invalidate path => exact Through.withCache (h.forget path s.cache s.disk)
  | contains path => exact .inl ⟨h.refl _, rfl⟩
  | statistics => exact .inl ⟨h.refl _, rfl⟩
  | configure settings => exact .inl ⟨h.refl _, rfl⟩
  | findBoundaryRoot path => exact .inl ⟨h.firstWithMarker _ _ _ _, rfl⟩
  | buildChain path root =>
    unfold Session.step
    dsimp only
    split <;> exact .inl ⟨h.refl _, rfl⟩
  | check path root => exact Through.respond _ (h.checked around s path root s.cache)
  | isIgnored path root => exact Through.respond _ (h.checked around s path root s.cache)
  | resolve path root => exact Through.respond _ (h.resolution around s path root s.cache)
  | matchPath path => exact Through.respondShared _ (h.resolution around s path none s.sharedCache)
  | shouldIgnore path => exact Through.respondShared _ (h.checked around s path none s.sharedCache)

theorem next (h : RunEffect t R) (around : Surroundings) (event : Event) (s : Session Watch) :
    s.Through R (t.next around s event) := by
  cases event with
  | ask request => exact h.step around request s
  | wait moments => exact .inl ⟨h.wait moments _ _, rfl⟩

/-- **What is preserved wherever a step goes through one of the caches holds after every run.** -/
theorem after (h : RunEffect t R) {I : Session Watch → Prop}
    (hi : ∀ s s', s.Through R s' → I s → I s') (around : Surroundings) (events : List Event)
    {s : Session Watch} (hs : I s) : I (t.after around events s) := by
  induction events generalizing s with
  | nil => exact hs
  | cons event rest ih => exact ih (hi s _ (h.next around event s) hs)

/-- What every such step keeps of a cache holds of both caches after every run. -/
theorem holds {P : Cache → Prop} (h : RunEffect t fun x y => P x.1 → P y.1) (around : Surroundings)
    (events : List Event) {s : Session Watch} (hs : s.Holds P) : (t.after around events s).Holds P := by
  refine h.after (I := Session.Holds P) ?_ around events hs
  intro s s' hthrough hs
  rcases hthrough with ⟨hkeep, hother⟩ | ⟨hkeep, hother⟩
  · exact ⟨hkeep hs.own, hother ▸ hs.shared⟩
  · exact ⟨hother ▸ hs.own, hkeep hs.shared⟩

end RunEffect

end PathIgnore
