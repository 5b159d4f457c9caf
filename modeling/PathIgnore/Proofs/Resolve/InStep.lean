import PathIgnore.Resolve.Basic

/-!
# Runs in step

One computation may be run on two disks that keep their states in quite different ways, and with two minds
about what is to be told of it. As long as the disks show the same whatever is looked at (`Disk.InStep`), the
two runs go the same way: they answer alike, leave equal caches and leave the disks in step
(`Traced.Alike`). Only what they tell may differ. A run asks at many places whether something is to be told,
and goes on in the same way whatever it hears.

This is shown for a load and, by induction on the consultations, for a scan (`Disk.InStep.scan`). Resolving
inherits it from the scan (`Disk.InStep.resolve`), and so does telling the verdict (`Traced.Alike.announce`).
-/

namespace PathIgnore

variable {σ₁ σ₂ α β : Type}

/-- From related states on, both disks show the same. -/
structure Disk.InStep (d₁ : Disk σ₁) (d₂ : Disk σ₂) (R : σ₁ → σ₂ → Prop) : Prop where
  stat : ∀ path {w₁ w₂}, R w₁ w₂ →
    (d₁.stat path w₁).1 = (d₂.stat path w₂).1 ∧ R (d₁.stat path w₁).2 (d₂.stat path w₂).2
  read : ∀ path {w₁ w₂}, R w₁ w₂ →
    (d₁.read path w₁).1 = (d₂.read path w₂).1 ∧ R (d₁.read path w₁).2 (d₂.read path w₂).2
  has : ∀ path {w₁ w₂}, R w₁ w₂ →
    (d₁.has path w₁).1 = (d₂.has path w₂).1 ∧ R (d₁.has path w₁).2 (d₂.has path w₂).2

theorem Disk.inStep_self {σ : Type} (d : Disk σ) : d.InStep d Eq where
  stat := by
    rintro path w _ rfl
    exact ⟨rfl, rfl⟩
  read := by
    rintro path w _ rfl
    exact ⟨rfl, rfl⟩
  has := by
    rintro path w _ rfl
    exact ⟨rfl, rfl⟩

/-- Two computations came to the same and left related states; what they told is left open. -/
structure Traced.Alike (R : σ₁ → σ₂ → Prop) (l₁ : Traced σ₁ α) (l₂ : Traced σ₂ α) : Prop where
  answer : l₁.answer = l₂.answer
  cache : l₁.cache = l₂.cache
  disk : R l₁.disk l₂.disk

namespace Traced.Alike

variable {R : σ₁ → σ₂ → Prop}

theorem after {l₁ : Traced σ₁ α} {l₂ : Traced σ₂ α} (h : l₁.Alike R l₂)
    (earlier₁ earlier₂ : List Notice) : (l₁.after earlier₁).Alike R (l₂.after earlier₂) :=
  ⟨h.answer, h.cache, h.disk⟩

theorem mapAnswer {l₁ : Traced σ₁ α} {l₂ : Traced σ₂ α} (h : l₁.Alike R l₂) (f : α → β) :
    (l₁.mapAnswer f).Alike R (l₂.mapAnswer f) :=
  ⟨congrArg (Except.map f) h.answer, h.cache, h.disk⟩

theorem announce {l₁ : Traced σ₁ Resolution} {l₂ : Traced σ₂ Resolution} (h : l₁.Alike R l₂)
    (shown₁ shown₂ : Diagnostics) :
    (Resolve.announce shown₁ l₁).Alike R (Resolve.announce shown₂ l₂) := by
  rw [Resolve.announce, Resolve.announce, h.answer]
  cases l₂.answer with
  | error fault => exact h
  | ok r => exact ⟨rfl, h.cache, h.disk⟩

end Traced.Alike

/-- Telling of it does not change which rule decides. -/
theorem Resolve.rule_consult (debug debug' : Bool) (file : Text) (rules : RuleSet) :
    ∀ candidates : List Candidate,
      (consult debug file rules candidates).1 = (consult debug' file rules candidates).1
  | [] => rfl
  | c :: rest => by
    have hrest := rule_consult debug debug' file rules rest
    rw [consult, consult]
    cases rules.firstMatch c.path c.isDirectory with
    | some r => rfl
    | none => exact hrest

namespace Disk.InStep

variable {d₁ : Disk σ₁} {d₂ : Disk σ₂} {R : σ₁ → σ₂ → Prop} {w₁ : σ₁} {w₂ : σ₂}

/-! ## Loads -/

theorem readAnew (h : d₁.InStep d₂ R) (quiet₁ quiet₂ : Bool) (path : Text) (seen : Fingerprint)
    (c : Cache) (hw : R w₁ w₂) :
    (Cache.readAnew d₁ quiet₁ path seen c w₁).Alike R (Cache.readAnew d₂ quiet₂ path seen c w₂) := by
  obtain ⟨hread, hw⟩ := h.read path hw
  rw [Cache.readAnew, Cache.readAnew]
  generalize d₁.read path w₁ = x₁ at hread hw ⊢
  generalize d₂.read path w₂ = x₂ at hread hw ⊢
  obtain ⟨reading, w₁⟩ := x₁
  obtain ⟨_, w₂⟩ := x₂
  obtain rfl : reading = _ := hread
  cases reading with
  | error fault => exact ⟨rfl, rfl, hw⟩
  | ok reading =>
    cases reading with
    | missing => exact ⟨rfl, rfl, hw⟩
    | unreadable fault => exact ⟨rfl, rfl, hw⟩
    | lines lines =>
      obtain ⟨hstat, hw⟩ := h.stat path hw
      dsimp only
      generalize d₁.stat path w₁ = y₁ at hstat hw ⊢
      generalize d₂.stat path w₂ = y₂ at hstat hw ⊢
      obtain ⟨again, w₁⟩ := y₁
      obtain ⟨_, w₂⟩ := y₂
      obtain rfl : again = _ := hstat
      cases again with
      | error fault => exact ⟨rfl, rfl, hw⟩
      | ok again =>
        cases again with
        | none => exact ⟨rfl, rfl, hw⟩
        | some again =>
          dsimp only
          split
          · exact ⟨rfl, rfl, hw⟩
          · exact ⟨rfl, rfl, hw⟩

/-- **Loads go the same way, silent or not.** -/
theorem load (h : d₁.InStep d₂ R) (quiet₁ quiet₂ : Bool) (path : Text) (c : Cache) (hw : R w₁ w₂) :
    (c.load d₁ quiet₁ path w₁).Alike R (c.load d₂ quiet₂ path w₂) := by
  obtain ⟨hstat, hw⟩ := h.stat path hw
  rw [Cache.load, Cache.load]
  generalize d₁.stat path w₁ = x₁ at hstat hw ⊢
  generalize d₂.stat path w₂ = x₂ at hstat hw ⊢
  obtain ⟨current, w₁⟩ := x₁
  obtain ⟨_, w₂⟩ := x₂
  obtain rfl : current = _ := hstat
  cases current with
  | error fault => exact ⟨rfl, rfl, hw⟩
  | ok current =>
    dsimp only
    split
    · exact ⟨rfl, rfl, hw⟩
    · cases current with
      | none => exact ⟨rfl, rfl, hw⟩
      | some seen => exact (h.readAnew quiet₁ quiet₂ path seen _ hw).after _ _

/-! ## Scans -/

/-- **Scans go the same way, whatever is to be told.** -/
theorem scan (h : d₁.InStep d₂ R) (shown₁ shown₂ : Diagnostics) :
    ∀ (plan : List Consultation) (c : Cache) {w₁ : σ₁} {w₂ : σ₂}, R w₁ w₂ →
      (Resolve.scan d₁ shown₁ plan c w₁).Alike R (Resolve.scan d₂ shown₂ plan c w₂)
  | [], _, _, _, hw => ⟨rfl, rfl, hw⟩
  | step :: rest, c, w₁, w₂, hw => by
    obtain ⟨hanswer, hcache, hdisk⟩ := h.load shown₁.quiet shown₂.quiet step.file c hw
    have hrest := h.scan shown₁ shown₂ rest (c.load d₂ shown₂.quiet step.file w₂).cache hdisk
    rw [Resolve.scan, Resolve.scan, hanswer, hcache]
    rcases (c.load d₂ shown₂.quiet step.file w₂).answer with fault | _ | rules
    · exact ⟨rfl, rfl, hdisk⟩
    · exact hrest.after _ _
    · have hrule := Resolve.rule_consult shown₁.debugLog shown₂.debugLog step.file rules step.candidates
      dsimp only
      generalize Resolve.consult shown₁.debugLog step.file rules step.candidates = x₁ at hrule ⊢
      generalize Resolve.consult shown₂.debugLog step.file rules step.candidates = x₂ at hrule ⊢
      obtain ⟨decided, notices₁⟩ := x₁
      obtain ⟨_, notices₂⟩ := x₂
      obtain rfl : decided = _ := hrule
      cases decided with
      | none => exact hrest.after _ _
      | some r => exact ⟨rfl, rfl, hdisk⟩

/-! ## Resolving -/

theorem firstWithMarker (h : d₁.InStep d₂ R) (marker : Text) : ∀ (l : List Text) {w₁ : σ₁} {w₂ : σ₂},
    R w₁ w₂ →
      (Chain.firstWithMarker d₁ marker l w₁).1 = (Chain.firstWithMarker d₂ marker l w₂).1 ∧
        R (Chain.firstWithMarker d₁ marker l w₁).2 (Chain.firstWithMarker d₂ marker l w₂).2
  | [], _, _, hw => ⟨rfl, hw⟩
  | directory :: rest, w₁, w₂, hw => by
    obtain ⟨hthere, hw⟩ := h.has (Path.join directory marker) hw
    rw [Chain.firstWithMarker, Chain.firstWithMarker]
    dsimp only
    rw [hthere]
    split
    · exact ⟨rfl, hw⟩
    · exact h.firstWithMarker marker rest hw

variable {s₁ s₂ : Settings}

theorem within (h : d₁.InStep d₂ R) (hs : s₁.toDiscovery = s₂.toDiscovery) (path : Text)
    (root : Option Text) (c : Cache) (hw : R w₁ w₂) :
    (Resolve.within d₁ s₁ path root c w₁).Alike R (Resolve.within d₂ s₂ path root c w₂) := by
  rw [Resolve.within, Resolve.within, hs]
  split
  · exact ⟨rfl, rfl, hw⟩
  · split
    · exact ⟨rfl, rfl, hw⟩
    · exact ((h.scan _ _ _ c hw).mapAnswer _).after _ _

/-- **Resolving comes to the same** where what is shown and where to look are the same. -/
theorem resolve (h : d₁.InStep d₂ R) (hs : s₁.toDiscovery = s₂.toDiscovery) (path : Text) (c : Cache)
    (hw : R w₁ w₂) : (Resolve.resolve d₁ s₁ path c w₁).Alike R (Resolve.resolve d₂ s₂ path c w₂) := by
  obtain ⟨hroot, hw⟩ := h.firstWithMarker s₂.boundaryMarker (Path.ancestors path) hw
  rw [Resolve.resolve, Resolve.resolve, Chain.findBoundaryRoot, Chain.findBoundaryRoot, hs]
  dsimp only
  rw [hroot]
  exact h.within hs path _ c hw

end Disk.InStep

end PathIgnore
