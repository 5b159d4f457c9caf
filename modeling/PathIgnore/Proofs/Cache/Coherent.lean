import PathIgnore.Proofs.Cache.Load
import PathIgnore.Proofs.Disk.Timeline

/-!
# Caches that agree with a history

An entry is coherent with the history of a disk if its rules are those of the lines that the file has
at every moment at which it shows the entry's fingerprint. Where no fingerprint returns after a change,

1. the two fingerprints around a reading vouch for what is read (`coherent_of_framed`),
2. a load therefore keeps coherence (`Loaded.coherent`),
3. and what it answers was true at a moment at which the load looked (`Loaded.vouched`).
-/

namespace PathIgnore

/-! ## What is to be kept -/

/-- The entry holds the rules of the file at every moment at which the file shows its fingerprint, up to
the last one, and there is such a moment. -/
structure CacheEntry.CoherentUntil (t : Timeline) (last : Nat) (path : Text) (e : CacheEntry) :
    Prop where
  shown : ∃ m, (t m).Shows path e.fingerprint
  rules : ∀ m ≤ last, (t m).Shows path e.fingerprint →
    ∃ lines, (t m).read path = .ok (.lines lines) ∧ e.rules = .ofLines path lines

/-- Every entry agrees with the history up to the last moment. -/
def Cache.CoherentUntil (t : Timeline) (last : Nat) (c : Cache) : Prop :=
  ∀ path e, c.find? path = some e → e.CoherentUntil t last path

/-- Every entry agrees with the whole history. -/
def Cache.Coherent (t : Timeline) (c : Cache) : Prop := ∀ last, c.CoherentUntil t last

/-- The observation showed that there is no file, or it was a reading that failed. -/
def Sighting.FoundNothing (t : Timeline) (path : Text) (g : Sighting) : Prop :=
  g.path = path ∧
    (g.look = .stat ∧ (t g.moment).stat path = .ok none ∨
      g.look = .read ∧ ((t g.moment).read path = .ok .missing ∨
        ∃ fault, (t g.moment).read path = .ok (.unreadable fault)))

/-- The answer to a load was true at the moment of one of the observations: the file had lines that give
the rules, or nothing was found. -/
def Timeline.Vouches (t : Timeline) (path : Text) (seen : List Sighting) : Option RuleSet → Prop
  | some rules => ∃ g ∈ seen, ∃ lines,
      (t g.moment).read path = .ok (.lines lines) ∧ rules = .ofLines path lines
  | none => ∃ g ∈ seen, g.FoundNothing t path

variable {t : Timeline} {path : Text}

/-! ## Loads -/

/-- **Lines read between two moments with one fingerprint are the lines at every moment with that
fingerprint.** -/
theorem coherent_of_framed {last : Nat} (ht : t.NeverReturnsUntil last) {f : Fingerprint}
    {lines : List Text} {i m j : Nat} (him : i ≤ m) (hmj : m ≤ j) (hlast : j ≤ last)
    (hi : (t i).Shows path f) (hj : (t j).Shows path f)
    (hread : (t m).read path = .ok (.lines lines)) :
    CacheEntry.CoherentUntil t last path ⟨.ofLines path lines, f⟩ := by
  refine ⟨⟨i, hi⟩, ?_⟩
  intro k hklast hk
  refine ⟨lines, ?_, rfl⟩
  rw [← hread]
  -- The fingerprint may also have been shown before the reading.
  rcases Nat.le_total m k with hmk | hkm
  · rw [ht.read_eq hklast hi hk m him hmk]
    exact ht.read_eq hklast hi hk k (Nat.le_trans him hmk) (Nat.le_refl k)
  · exact (ht.read_eq hlast hk hj m hkm hmj).symm

namespace Cache

variable {last : Nat} {quiet : Bool} {c : Cache} {w : Watch} {l : Traced Watch (Option RuleSet)}

theorem coherentUntil_iff_every :
    c.CoherentUntil t last ↔ c.Every fun path e => e.CoherentUntil t last path := Iff.rfl

theorem coherent_empty (t : Timeline) (last : Nat) : CoherentUntil t last .empty := every_empty

theorem CoherentUntil.mono {earlier : Nat} (hle : earlier ≤ last) (hc : c.CoherentUntil t last) :
    c.CoherentUntil t earlier := fun path e he =>
  ⟨(hc path e he).shown, fun m hm => (hc path e he).rules m (Nat.le_trans hm hle)⟩

/-- No load goes back in time. -/
theorem Loaded.now_le (h : Loaded t.disk quiet path c w l) : w.now ≤ l.disk.now := by
  cases h with
  | refused hstat | hit _ hstat | absent hstat =>
    obtain ⟨-, rfl⟩ := Prod.mk.inj hstat
    exact w.now_le_note _ _
  | readRefused hstat _ hread | missing hstat _ hread | unreadable hstat _ hread =>
    obtain ⟨-, rfl⟩ := Prod.mk.inj hstat
    obtain ⟨-, rfl⟩ := Prod.mk.inj hread
    exact Nat.le_trans (w.now_le_note _ _) (Watch.now_le_note _ _ _)
  | againRefused hstat _ hread hagain | vanished hstat _ hread hagain
  | changed hstat _ hread hagain | kept hstat _ hread hagain =>
    obtain ⟨-, rfl⟩ := Prod.mk.inj hstat
    obtain ⟨-, rfl⟩ := Prod.mk.inj hread
    obtain ⟨-, rfl⟩ := Prod.mk.inj hagain
    exact Nat.le_trans (w.now_le_note _ _)
      (Nat.le_trans (Watch.now_le_note _ _ _) (Watch.now_le_note _ _ _))

/-- **A load keeps coherence.** -/
theorem Loaded.coherent (ht : t.NeverReturnsUntil last) (hc : c.CoherentUntil t last)
    (h : Loaded t.disk quiet path c w l) (hlast : l.disk.now ≤ last) : l.cache.CoherentUntil t last := by
  rw [coherentUntil_iff_every] at hc ⊢
  cases h with
  | refused | hit => exact hc
  | absent | readRefused | missing | unreadable | againRefused | vanished | changed =>
    exact hc.countMiss path
  | kept hstat hold hread hagain =>
    obtain ⟨hfirst, rfl⟩ := Prod.mk.inj hstat
    obtain ⟨hlines, rfl⟩ := Prod.mk.inj hread
    obtain ⟨hsecond, rfl⟩ := Prod.mk.inj hagain
    -- The reading stands between two looks at one fingerprint.
    refine (hc.countMiss path).remember (coherent_of_framed ht (w.now_le_note _ _)
      (Watch.now_le_note _ _ _) (Nat.le_trans (Watch.now_le_note _ _ _) hlast) hfirst hsecond hlines)

/-- **What a load answers was true at the moment of one of its observations.** -/
theorem Loaded.vouched (hc : c.CoherentUntil t last) (h : Loaded t.disk quiet path c w l)
    (hlast : l.disk.now ≤ last) {rules? : Option RuleSet} (hanswer : l.answer = .ok rules?) :
    t.Vouches path (w.since l.disk) rules? := by
  have hnow : w.now ≤ last := Nat.le_trans h.now_le hlast
  cases h with
  | refused | readRefused | againRefused => cases hanswer
  | hit hfind hstat =>
    cases hanswer
    obtain ⟨hseen, rfl⟩ := Prod.mk.inj hstat
    exact ⟨⟨.stat, path, w.now⟩, by simp [Watch.since], (hc path _ hfind).rules w.now hnow hseen⟩
  | absent hstat =>
    cases hanswer
    obtain ⟨hnone, rfl⟩ := Prod.mk.inj hstat
    exact ⟨⟨.stat, path, w.now⟩, by simp [Watch.since], rfl, .inl ⟨rfl, hnone⟩⟩
  | missing hstat hold hread =>
    cases hanswer
    obtain ⟨-, rfl⟩ := Prod.mk.inj hstat
    obtain ⟨hmissing, rfl⟩ := Prod.mk.inj hread
    exact ⟨⟨.read, path, _⟩, by simp [Watch.since], rfl, .inr ⟨rfl, .inl hmissing⟩⟩
  | unreadable hstat hold hread =>
    cases hanswer
    obtain ⟨-, rfl⟩ := Prod.mk.inj hstat
    obtain ⟨hfault, rfl⟩ := Prod.mk.inj hread
    exact ⟨⟨.read, path, _⟩, by simp [Watch.since], rfl, .inr ⟨rfl, .inr ⟨_, hfault⟩⟩⟩
  | vanished hstat hold hread hagain =>
    cases hanswer
    obtain ⟨-, rfl⟩ := Prod.mk.inj hstat
    obtain ⟨-, rfl⟩ := Prod.mk.inj hread
    obtain ⟨hnone, rfl⟩ := Prod.mk.inj hagain
    exact ⟨⟨.stat, path, _⟩, by simp [Watch.since], rfl, .inl ⟨rfl, hnone⟩⟩
  | changed hstat hold hread hagain | kept hstat hold hread hagain =>
    cases hanswer
    obtain ⟨-, rfl⟩ := Prod.mk.inj hstat
    obtain ⟨hlines, rfl⟩ := Prod.mk.inj hread
    obtain ⟨-, rfl⟩ := Prod.mk.inj hagain
    exact ⟨⟨.read, path, _⟩, by simp [Watch.since], _, hlines, rfl⟩

end Cache

end PathIgnore
