import PathIgnore.Proofs.Cache.Counts
import PathIgnore.Session.Basic

/-!
# A load touches one path

Whatever a cache remembers and whatever is seen of a file, a load leaves the entries of all other paths
alone, and it leaves no entry of its own path but one that it vouches for (`Session.step_load_onePath`).

* A call that counts as a hit changes no entry and reads nothing. It is one exactly if the file shows the
  remembered fingerprint, in all its parts.
* Any other call leaves the rules that it answers with, provided that it saw one fingerprint before and
  after the reading, and otherwise no entry; the entry from before is gone.

A call that is refused at its first look, as it is for a path with U+0000 in it, is the one case without an
answer: nothing is learned of the path, and the cache stays as it is.
-/

namespace PathIgnore

/-- The parts of a fingerprint. -/
def Fingerprint.parts : List (Fingerprint → Int) :=
  [mtimeSec, mtimeNsec, size, inode, uid, gid, mode]

/-- The file was read between two looks at one fingerprint, and nothing else was done. -/
def Timeline.ReadsUnder (t : Timeline) (path : Text) (f : Fingerprint) (seen : List Sighting) : Prop :=
  ∃ i m j, seen = [⟨.stat, path, i⟩, ⟨.read, path, m⟩, ⟨.stat, path, j⟩] ∧
    (t i).Shows path f ∧ (t j).Shows path f

/-- The disk does not say how the path stands. -/
def Snapshot.Refuses (s : Snapshot) (path : Text) : Prop := ∃ fault, s.stat path = .error fault

namespace Cache

/-- From one cache to the other, a hit was counted. -/
def HitsOnce (c c' : Cache) : Prop := c'.hits = c.hits + 1

theorem not_hitsOnce_of_eq {c c' : Cache} (h : c'.hits = c.hits) : ¬ c.HitsOnce c' := by
  rw [HitsOnce, h]
  exact Nat.ne_of_lt (Nat.lt_succ_self _)

theorem find?_countMiss_self (c : Cache) (path : Text) : (c.countMiss path).find? path = none := by
  rw [find?_countMiss, if_pos rfl]

theorem find?_countMiss_of_ne {c : Cache} {path other : Text} (h : other ≠ path) :
    (c.countMiss path).find? other = c.find? other := by
  rw [find?_countMiss, if_neg h.symm]

theorem find?_remember_self (c : Cache) (path : Text) (e : CacheEntry) :
    (c.remember path e).find? path = some e := by
  rw [find?_remember, if_pos rfl]

theorem find?_remember_of_ne {c : Cache} {path other : Text} {e : CacheEntry} (h : other ≠ path) :
    (c.remember path e).find? other = c.find? other := by
  rw [find?_remember, if_neg h.symm]

/-- An entry that is not fresh does not have the fingerprint that is seen. -/
theorem not_shown_of_fresh?_eq_none {c : Cache} {path : Text} {current : Option Fingerprint}
    {e : CacheEntry} (hold : c.fresh? path current = none) (hfind : c.find? path = some e) :
    current ≠ some e.fingerprint := by
  intro hcurrent
  have hfresh : c.fresh? path current = some e.rules := fresh?_eq_some_iff.mpr ⟨e, hfind, hcurrent, rfl⟩
  rw [hold] at hfresh
  cases hfresh

/-! ## Other paths, and hits -/

variable {σ : Type} {d : Disk σ} {quiet : Bool} {path : Text} {c : Cache} {w : σ}
  {l : Traced σ (Option RuleSet)}

theorem Loaded.find?_of_ne (h : Loaded d quiet path c w l) {other : Text} (hne : other ≠ path) :
    l.cache.find? other = c.find? other := by
  cases h with
  | refused | hit => rfl
  | absent | readRefused | missing | unreadable | againRefused | vanished | changed =>
    exact find?_countMiss_of_ne hne
  | kept => exact (find?_remember_of_ne hne).trans (find?_countMiss_of_ne hne)

/-- **A load counts as a hit exactly if the file shows the remembered fingerprint.** -/
theorem Loaded.hitsOnce_iff (h : Loaded d quiet path c w l) :
    c.HitsOnce l.cache ↔
      ∃ e, c.find? path = some e ∧ (d.stat path w).1 = .ok (some e.fingerprint) := by
  cases h with
  | refused hstat | absent hstat =>
    refine iff_of_false (not_hitsOnce_of_eq (by simp)) ?_
    rintro ⟨e, -, he⟩
    rw [hstat] at he
    cases he
  | hit hfind hstat => exact iff_of_true rfl ⟨_, hfind, by rw [hstat]⟩
  | readRefused hstat hold | missing hstat hold | unreadable hstat hold | againRefused hstat hold
  | vanished hstat hold | changed hstat hold | kept hstat hold =>
    refine iff_of_false (not_hitsOnce_of_eq (by simp)) ?_
    rintro ⟨e, hfind, he⟩
    rw [hstat] at he
    exact not_shown_of_fresh?_eq_none hold hfind (Except.ok.inj he)

end Cache

/-! ## The path itself -/

namespace Timeline

variable {t : Timeline} {path : Text} {v v₁ v₂ v₃ : Watch}

theorem not_refuses_of_stat {seen : Option Fingerprint} (h : t.disk.stat path v = (.ok seen, v₁)) :
    ¬ (t v.now).Refuses path := by
  rintro ⟨fault, hfault⟩
  have hseen : (t v.now).stat path = .ok seen := congrArg Prod.fst h
  rw [hfault] at hseen
  cases hseen

/-- A reading stands between looks at one fingerprint if both looks showed it. -/
theorem readsUnder_iff {f seen again : Fingerprint} {reading : Except PathFault Reading}
    (hstat : t.disk.stat path v = (.ok (some seen), v₁)) (hread : t.disk.read path v₁ = (reading, v₂))
    (hagain : t.disk.stat path v₂ = (.ok (some again), v₃)) :
    t.ReadsUnder path f (v.since v₃) ↔ f = seen ∧ f = again := by
  obtain ⟨hseen, rfl⟩ := Prod.mk.inj hstat
  obtain ⟨-, rfl⟩ := Prod.mk.inj hread
  obtain ⟨hsecond, rfl⟩ := Prod.mk.inj hagain
  have hlog : v.since (((v.note .stat path).note .read path).note .stat path) =
      [⟨.stat, path, v.now⟩, ⟨.read, path, (v.note .stat path).now⟩,
        ⟨.stat, path, ((v.note .stat path).note .read path).now⟩] := by simp [Watch.since]
  rw [ReadsUnder, hlog]
  constructor
  · rintro ⟨i, m, j, hmoments, hi, hj⟩
    cases hmoments
    exact ⟨Option.some.inj (Except.ok.inj (hi.symm.trans hseen)),
      Option.some.inj (Except.ok.inj (hj.symm.trans hsecond))⟩
  · rintro ⟨rfl, rfl⟩
    exact ⟨_, _, _, rfl, hseen, hsecond⟩

end Timeline

namespace Cache

variable {t : Timeline} {quiet : Bool} {path : Text} {c : Cache} {v : Watch}
  {l : Traced Watch (Option RuleSet)}

/-- A hit changes no entry, answers with the one of the path, and reads nothing. -/
theorem Loaded.of_hitsOnce (h : Loaded t.disk quiet path c v l) (hhit : c.HitsOnce l.cache) :
    l.cache.entries = c.entries ∧ (∀ g ∈ v.since l.disk, g.look ≠ .read) ∧
      ∃ e, c.find? path = some e ∧ l.answer = .ok (some e.rules) := by
  cases h with
  | hit hfind hstat =>
    obtain ⟨-, rfl⟩ := Prod.mk.inj hstat
    refine ⟨rfl, ?_, _, hfind, rfl⟩
    simp [Watch.since]
  | refused | absent | readRefused | missing | unreadable | againRefused | vanished | changed | kept =>
    exact absurd hhit (not_hitsOnce_of_eq (by simp))

/-- **Without a hit, the path has the entry that was vouched for, and no other.** -/
theorem Loaded.find?_self_iff (h : Loaded t.disk quiet path c v l) (hlooked : ¬ (t v.now).Refuses path)
    (hmiss : ¬ c.HitsOnce l.cache) (e : CacheEntry) :
    l.cache.find? path = some e ↔
      l.answer = .ok (some e.rules) ∧ t.ReadsUnder path e.fingerprint (v.since l.disk) := by
  cases h with
  | hit => exact absurd rfl hmiss
  | refused hstat => exact absurd ⟨_, congrArg Prod.fst hstat⟩ hlooked
  | absent | readRefused | missing | unreadable | againRefused | vanished =>
    simp [find?_countMiss_self]
  | changed hstat hold hread hagain hne =>
    refine iff_of_false (by simp [find?_countMiss_self]) ?_
    rintro ⟨-, hreads⟩
    obtain ⟨hfirst, hsecond⟩ := (Timeline.readsUnder_iff hstat hread hagain).mp hreads
    exact hne (hsecond.symm.trans hfirst)
  | kept hstat hold hread hagain =>
    obtain ⟨rules, f⟩ := e
    rw [Timeline.readsUnder_iff hstat hread hagain, find?_remember_self]
    constructor
    · intro hkept
      cases hkept
      exact ⟨rfl, rfl, rfl⟩
    · rintro ⟨hanswer, rfl, -⟩
      cases hanswer
      rfl

/-- Where the disk refuses to look at the path, there is no answer and nothing is done. -/
theorem Loaded.of_refuses (h : Loaded t.disk quiet path c v l) (hrefuses : (t v.now).Refuses path) :
    (∃ fault, l.answer = .error fault) ∧ l.cache = c := by
  cases h with
  | refused => exact ⟨⟨_, rfl⟩, rfl⟩
  | hit _ hstat | absent hstat | readRefused hstat | missing hstat | unreadable hstat
  | againRefused hstat | vanished hstat | changed hstat | kept hstat =>
    exact absurd hrefuses (Timeline.not_refuses_of_stat hstat)

end Cache

/-! ## Asking for the rules of a path -/

theorem Fingerprint.eq_iff_parts {f g : Fingerprint} : f = g ↔ ∀ part ∈ parts, part f = part g := by
  obtain ⟨_, _, _, _, _, _, _⟩ := f
  obtain ⟨_, _, _, _, _, _, _⟩ := g
  simp [parts]

/-- The request for the rules of the path touches nothing else, and leaves of the path what the response
vouches for. -/
structure Timeline.TouchesOnePath (t : Timeline) (path : Text) (s : Session Watch) (r : Response Watch) :
    Prop where
  /-- All but the disk and the cache that serves is as it was. -/
  session : r.session = { s.withCache r.session.cache with disk := r.session.disk }
  others : ∀ other, other ≠ path → r.session.cache.find? other = s.cache.find? other
  hit_iff : s.cache.HitsOnce r.session.cache ↔
    ∃ e, s.cache.find? path = some e ∧ (t s.disk.now).Shows path e.fingerprint
  hit_iff_parts : ∀ e f, s.cache.find? path = some e → (t s.disk.now).Shows path f →
    (s.cache.HitsOnce r.session.cache ↔ ∀ part ∈ Fingerprint.parts, part f = part e.fingerprint)
  of_hit : s.cache.HitsOnce r.session.cache →
    r.session.cache.entries = s.cache.entries ∧
      (∀ g ∈ s.disk.since r.session.disk, g.look ≠ .read) ∧
        ∃ e, s.cache.find? path = some e ∧ r.answer = .rules (some e.rules)
  of_miss : ¬ s.cache.HitsOnce r.session.cache → ¬ (t s.disk.now).Refuses path →
    ∀ e, r.session.cache.find? path = some e ↔
      r.answer = .rules (some e.rules) ∧
        t.ReadsUnder path e.fingerprint (s.disk.since r.session.disk)
  of_refuses : (t s.disk.now).Refuses path →
    (∃ fault, r.answer = .pathFault fault) ∧ r.session.cache = s.cache

namespace Session

variable {σ : Type}

theorem cache_respond {α : Type} (s : Session σ) (f : α → Answer) (l : Traced σ α) :
    (s.respond f l).session.cache = l.cache := by
  obtain ⟨disk, settings, choice, own, shared⟩ := s
  cases choice <;> rfl

/-- **A load touches one path, and leaves nothing stale there.** This holds for every cache, every path,
silent or not, and whatever is seen of the file. -/
theorem step_load_onePath (t : Timeline) (around : Surroundings) (s : Session Watch) (path : Text)
    (quiet : Option Bool) : t.TouchesOnePath path s (step t.disk around (.load path quiet) s) := by
  let silent := quiet.getD s.choice.quiet
  have hloaded := Cache.loaded t.disk silent path s.cache s.disk
  have hanswer : ∀ rules?, (step t.disk around (.load path quiet) s).answer = .rules rules? ↔
      (s.cache.load t.disk silent path s.disk).answer = .ok rules? := fun _ => answerOf_rules_iff
  have hcache : (step t.disk around (.load path quiet) s).session.cache =
      (s.cache.load t.disk silent path s.disk).cache := cache_respond _ _ _
  have hhit := hloaded.hitsOnce_iff
  have hof_hit := hloaded.of_hitsOnce
  have hof_miss := fun hmiss hlooked => hloaded.find?_self_iff hlooked hmiss
  simp only [← hanswer, ← hcache] at hof_hit hof_miss hhit
  refine ⟨by rw [hcache]; rfl, fun other hne => hcache ▸ hloaded.find?_of_ne hne, hhit, ?_, hof_hit,
    hof_miss, fun hrefuses => ?_⟩
  · intro e f hfind hshown
    rw [hhit, ← Fingerprint.eq_iff_parts]
    constructor
    · rintro ⟨e', hfind', hshown'⟩
      rw [hfind] at hfind'
      cases hfind'
      exact Option.some.inj (Except.ok.inj (hshown.symm.trans hshown'))
    · rintro rfl
      exact ⟨e, hfind, hshown⟩
  · obtain ⟨⟨fault, hfault⟩, hsame⟩ := hloaded.of_refuses hrefuses
    exact ⟨⟨fault, congrArg (answerOf .rules) hfault⟩, hcache.trans hsame⟩

end Session

end PathIgnore
