import PathIgnore.Proofs.Cache.Counts
import PathIgnore.Proofs.Resolve.Shown
import PathIgnore.Proofs.Session.Refused
import PathIgnore.Proofs.Session.Run

/-!
# The counts of a cache over whole runs

In a run on a disk with any history, `Timeline.calls` lists the calls of `Cache.load` that are made on
each of the two caches: those that are asked for, and those that queries make on their way. The counts
of a cache tell of these calls (`Timeline.accounts_after`): each counts as one hit or one miss, whatever
is remembered or was dropped came from a miss of its own, and so did every reading.

The exception are calls that are refused at their first look, as they are for a path with U+0000 in it.
They count as neither (`Timeline.not_counted_of_nul`).
-/

namespace PathIgnore

/-! ## Which calls are made -/

/-- The calls that a scan makes. -/
def Timeline.scanCalls (t : Timeline) (shown : Diagnostics) :
    List Consultation → Cache → Watch → List LoadCall
  | [], _, _ => []
  | step :: rest, c, w =>
    let loaded := c.load t.disk shown.quiet step.file w
    ⟨step.file, shown.quiet, c, w⟩ ::
      -- The scan goes on as long as nothing is refused and no rule decides.
      match (Resolve.scan t.disk shown [step] c w).answer with
      | .ok none => scanCalls t shown rest loaded.cache loaded.disk
      | _ => []

/-- The calls on each of the two caches. -/
structure Ledger where
  own : List LoadCall
  shared : List LoadCall

namespace Ledger

/-- No call. -/
def none : Ledger := ⟨[], []⟩

/-- These calls, and further ones behind them. -/
def append (k more : Ledger) : Ledger := ⟨k.own ++ more.own, k.shared ++ more.shared⟩

/-- How many readings the calls make. -/
def readings (t : Timeline) (k : Ledger) : Nat :=
  LoadCall.readings t k.own + LoadCall.readings t k.shared

end Ledger

/-- Calls on the cache that is chosen. -/
def CacheChoice.ledger (calls : List LoadCall) : CacheChoice → Ledger
  | .own _ => ⟨calls, []⟩
  | .shared => ⟨[], calls⟩

namespace Timeline

/-- The calls on the cache `c` that resolving a path makes; none without a normal form. -/
def queryCalls (t : Timeline) (around : Surroundings) (s : Session Watch) (path : Text)
    (root : Option (Option Text)) (c : Cache) : List LoadCall :=
  match Path.normalize around path with
  | .error _ => []
  | .ok path =>
    let settled := s.settledRoot t.disk path root
    let plan := Resolve.consultations s.settings.toDiscovery path settled.1
    t.scanCalls s.settings.toDiagnostics plan c settled.2

/-- The calls that a request makes. -/
def requestCalls (t : Timeline) (around : Surroundings) (s : Session Watch) : Request → Ledger
  | .load path quiet => s.choice.ledger [⟨path, quiet.getD s.choice.quiet, s.cache, s.disk⟩]
  | .check path root | .resolve path root | .isIgnored path root =>
    s.choice.ledger (t.queryCalls around s path root s.cache)
  | .matchPath path | .shouldIgnore path => ⟨[], t.queryCalls around s path none s.sharedCache⟩
  | .invalidate _ | .contains _ | .statistics | .configure _ | .findBoundaryRoot _ | .buildChain _ _ =>
    .none

/-- The calls that a run makes. -/
def calls (t : Timeline) (around : Surroundings) : List Event → Session Watch → Ledger
  | [], _ => .none
  | .ask request :: rest, s =>
    (t.requestCalls around s request).append (t.calls around rest (t.next around s (.ask request)))
  | .wait moments :: rest, s => t.calls around rest (t.next around s (.wait moments))

end Timeline

/-! ## Scans and resolving -/

/-- Cache and disk come from `x` to `y` by these calls, and all readings in between are theirs. -/
structure Counted (t : Timeline) (calls : List LoadCall) (x y : Cache × Watch) : Prop where
  counts : x.1.Counts t calls y.1
  readings : y.2.readings = x.2.readings + LoadCall.readings t calls

namespace Counted

variable {t : Timeline} {calls more : List LoadCall} {x y z : Cache × Watch}

theorem refl (x : Cache × Watch) : Counted t [] x x := ⟨.refl _, rfl⟩

theorem trans (h : Counted t calls x y) (h' : Counted t more y z) : Counted t (calls ++ more) x z where
  counts := h.counts.trans h'.counts
  readings := by rw [h'.readings, h.readings, LoadCall.readings_append, Nat.add_assoc]

theorem load (t : Timeline) (quiet : Bool) (path : Text) (c : Cache) (w : Watch) :
    Counted t [⟨path, quiet, c, w⟩] (c, w) (c.load t.disk quiet path w).state :=
  ⟨Cache.counts_load t quiet path c w, Cache.readings_load t quiet path c w⟩

/-- **What a scan does to the counts is what its calls do.** -/
theorem scan (t : Timeline) (shown : Diagnostics) :
    ∀ (plan : List Consultation) (c : Cache) (w : Watch),
      Counted t (t.scanCalls shown plan c w) (c, w) (Resolve.scan t.disk shown plan c w).state
  | [], _, _ => refl _
  | step :: rest, c, w => by
    have hload := load t shown.quiet step.file c w
    rw [Timeline.scanCalls]
    rcases Resolve.scan_cons_cases t.disk shown step c w with
      ⟨notices, hgoes⟩ | ⟨answer, notices, hdecides, -, hends⟩
    · rw [hgoes rest, hgoes []]
      exact hload.trans (scan t shown rest _ _)
    · rw [hends rest, hends []]
      split
      · next hanswer => exact absurd hanswer hdecides
      · exact hload

end Counted

/-- Looking for the boundary marker reads nothing. -/
theorem Chain.readings_firstWithMarker (t : Timeline) (marker : Text) : ∀ (l : List Text) (w : Watch),
    (firstWithMarker t.disk marker l w).2.readings = w.readings
  | [], _ => rfl
  | directory :: rest, w => by
    have hhas : (w.note .has (Path.join directory marker)).readings = w.readings := by
      simp [Watch.readings, Sighting.isReading]
    rw [firstWithMarker]
    dsimp only [Timeline.disk]
    split
    · exact hhas
    · exact (readings_firstWithMarker t marker rest _).trans hhas

variable {t : Timeline} {around : Surroundings} {s : Session Watch}

theorem Session.readings_settledRoot (path : Text) (root : Option (Option Text)) :
    (s.settledRoot t.disk path root).2.readings = s.disk.readings := by
  cases root with
  | none => exact Chain.readings_firstWithMarker t _ _ _
  | some root => rfl

theorem Counted.resolution (t : Timeline) (around : Surroundings) (s : Session Watch) (path : Text)
    (root : Option (Option Text)) (c : Cache) :
    Counted t (t.queryCalls around s path root c) (c, s.disk)
      (s.resolution t.disk around path root c).state := by
  cases hnormal : Path.normalize around path with
  | error fault =>
    rw [Session.resolution_of_error t.disk s hnormal, Timeline.queryCalls, hnormal]
    exact .refl _
  | ok normal =>
    have hscan := Counted.scan t s.settings.toDiagnostics (Resolve.consultations
      s.settings.toDiscovery normal (s.settledRoot t.disk normal root).1) c
      (s.settledRoot t.disk normal root).2
    rw [Session.resolution_of_ok t.disk s hnormal, Session.resolutionOf_eq_within,
      Resolve.state_within, Timeline.queryCalls, hnormal]
    exact ⟨hscan.counts, Session.readings_settledRoot normal root ▸ hscan.readings⟩

/-! ## Requests and runs -/

namespace Session

/-- The counts of both caches come from one session to the other by these calls. -/
structure Counts (t : Timeline) (k : Ledger) (s s' : Session Watch) : Prop where
  own : s.ownCache.Counts t k.own s'.ownCache
  shared : s.sharedCache.Counts t k.shared s'.sharedCache
  readings : s'.disk.readings = s.disk.readings + k.readings t

variable {s' s'' : Session Watch} {calls : List LoadCall} {k more : Ledger}

theorem Counts.of_same (hown : s'.ownCache = s.ownCache) (hshared : s'.sharedCache = s.sharedCache)
    (hreadings : s'.disk.readings = s.disk.readings) : s.Counts t .none s' :=
  ⟨hown ▸ .refl _, hshared ▸ .refl _, hreadings⟩

theorem Counts.trans (h : s.Counts t k s') (h' : s'.Counts t more s'') :
    s.Counts t (k.append more) s'' where
  own := h.own.trans h'.own
  shared := h.shared.trans h'.shared
  readings := by
    have hfirst := h.readings
    have hsecond := h'.readings
    simp only [Ledger.readings, Ledger.append, LoadCall.readings_append] at hfirst hsecond ⊢
    omega

theorem Counts.respond {α : Type} (f : α → Answer) {l : Traced Watch α}
    (h : Counted t calls (s.cache, s.disk) l.state) :
    s.Counts t (s.choice.ledger calls) (s.respond f l).session := by
  have hreadings : (s.respond f l).session.disk.readings =
      s.disk.readings + (s.choice.ledger calls).readings t := by
    have htotal : (s.choice.ledger calls).readings t = LoadCall.readings t calls := by
      cases s.choice <;> simp [CacheChoice.ledger, Ledger.readings]
    exact htotal ▸ h.readings
  obtain ⟨disk, settings, choice, own, shared⟩ := s
  cases choice with
  | own quiet => exact ⟨h.counts, .refl _, hreadings⟩
  | shared => exact ⟨.refl _, h.counts, hreadings⟩

theorem Counts.respondShared {α : Type} (f : α → Answer) {l : Traced Watch α}
    (h : Counted t calls (s.sharedCache, s.disk) l.state) :
    s.Counts t ⟨[], calls⟩ (s.respondShared f l).session :=
  ⟨.refl _, h.counts, h.readings.trans (by simp [Ledger.readings])⟩

/-- **Forgetting counts nothing.** -/
theorem counts_invalidate (forgotten : Option Text) :
    s.Counts t .none (s.withCache (s.cache.invalidate forgotten)) := by
  have hcounts := Cache.counts_invalidate (t := t) s.cache forgotten
  obtain ⟨disk, settings, choice, own, shared⟩ := s
  cases choice with
  | own quiet => exact ⟨hcounts, .refl _, rfl⟩
  | shared => exact ⟨.refl _, hcounts, rfl⟩

/-- **What a request does to the counts is what its calls do.** -/
theorem counts_step (request : Request) :
    s.Counts t (t.requestCalls around s request) (step t.disk around request s).session := by
  have hresolution := Counted.resolution t around s
  have hchecked : ∀ path root c, Counted t (t.queryCalls around s path root c) (c, s.disk)
      (s.checked t.disk around path root c).state := fun path root c => by
    rw [checked, Resolve.state_announce]
    exact hresolution path root c
  cases request with
  | load path quiet => exact .respond _ (.load t _ path s.cache s.disk)
  | invalidate path => exact counts_invalidate path
  | contains | statistics | configure => exact .of_same rfl rfl rfl
  | findBoundaryRoot path => exact .of_same rfl rfl (Chain.readings_firstWithMarker t _ _ _)
  | buildChain path root =>
    unfold step
    dsimp only
    split <;> exact .of_same rfl rfl rfl
  | check path root => exact .respond _ (hchecked path root _)
  | isIgnored path root => exact .respond _ (hchecked path root _)
  | resolve path root => exact .respond _ (hresolution path root _)
  | matchPath path => exact .respondShared _ (hresolution path none _)
  | shouldIgnore path => exact .respondShared _ (hchecked path none _)

end Session

/-- **What a run does to the counts is what its calls do.** -/
theorem Timeline.counts_after (t : Timeline) (around : Surroundings) :
    ∀ (events : List Event) (s : Session Watch),
      s.Counts t (t.calls around events s) (t.after around events s)
  | [], _ => .of_same rfl rfl rfl
  | .ask request :: rest, _ => (Session.counts_step request).trans (counts_after t around rest _)
  | .wait moments :: rest, s =>
    (Session.Counts.of_same rfl rfl rfl : s.Counts t .none (t.next around s (.wait moments))).trans
      (counts_after t around rest _)

/-! ## What the counts tell -/

/-- The counts of a session tell of the calls that were made since it was new, and go on to do so. -/
structure Session.Accounts (t : Timeline) (around : Surroundings) (fresh : Session Watch) (k : Ledger)
    (s : Session Watch) : Prop where
  own : s.ownCache.Accounts t k.own
  shared : s.sharedCache.Accounts t k.shared
  /-- All readings were made by these calls. -/
  readings : s.disk.readings = fresh.disk.readings + k.readings t
  /-- The statistics give the counts, and with them the number of paths that are remembered. -/
  statistics : ∃ paths : List Text,
    paths.Nodup ∧ (∀ path, path ∈ paths ↔ s.cache.contains path = true) ∧
      paths.length = s.cache.size ∧
      (step t.disk around .statistics s).answer =
        .statistics ⟨paths.length, s.cache.hits, s.cache.misses, s.cache.reloads⟩
  forgetting : ∀ forgotten,
    let s' := (step t.disk around (.invalidate forgotten) s).session
    s.ownCache.CountsStay s'.ownCache ∧ s.sharedCache.CountsStay s'.sharedCache
  later : ∀ events,
    let s' := t.after around events s
    s.ownCache.CountsUpTo s'.ownCache ∧ s.sharedCache.CountsUpTo s'.sharedCache

namespace Session

theorem countsStay_forget (around : Surroundings) (forgotten : Option Text) (s : Session Watch) :
    let s' := (step t.disk around (.invalidate forgotten) s).session
    s.ownCache.CountsStay s'.ownCache ∧ s.sharedCache.CountsStay s'.sharedCache := by
  have hstay := s.cache.countsStay_invalidate forgotten
  obtain ⟨disk, settings, choice, own, shared⟩ := s
  cases choice with
  | own quiet => exact ⟨hstay, .refl _⟩
  | shared => exact ⟨.refl _, hstay⟩

end Session

namespace Timeline

/-- **After every run the counts tell of the calls that were made.** On each cache, the hits and the
misses are the calls that were not refused at their first look; the reloads and the entries, and also the
readings, are no more than the misses; forgetting counts nothing, and no count ever decreases. -/
theorem accounts_after (t : Timeline) (around : Surroundings) (w : Watch) (settings : Settings)
    (choice : CacheChoice) (events : List Event) :
    let fresh := Session.start w settings choice
    Session.Accounts t around fresh (t.calls around events fresh) (t.after around events fresh) := by
  intro fresh
  have hcounts := t.counts_after around events fresh
  generalize t.after around events fresh = s at hcounts
  obtain ⟨paths, hnodup, hmem, hlength⟩ := s.cache.exists_paths
  exact {
    own := hcounts.own.accounts
    shared := hcounts.shared.accounts
    readings := hcounts.readings
    statistics := ⟨paths, hnodup, hmem, hlength, by rw [hlength]; rfl⟩
    forgetting := fun forgotten => Session.countsStay_forget around forgotten s
    later := fun events =>
      have hlater := t.counts_after around events s
      ⟨hlater.own.toCountsUpTo, hlater.shared.toCountsUpTo⟩ }

/-- **Not every call is counted**: one is made on a path with U+0000 in it, with nothing on the disk. -/
theorem not_counted_of_nul :
    let t := still (Tree.disk.snapshot Tree.empty)
    let around := Surroundings.atRoot
    let fresh := Session.start ⟨0, [], []⟩ .default (.own false)
    let events := [Event.ask (.load "/a\x00".toList none)]
    let c := (t.after around events fresh).ownCache
    (t.calls around events fresh).own.length = 1 ∧ c.hits + c.misses = 0 := by
  exact ⟨rfl, by decide +kernel⟩

end Timeline

end PathIgnore
