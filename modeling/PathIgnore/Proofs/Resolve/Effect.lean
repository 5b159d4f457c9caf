import PathIgnore.Resolve.Basic

/-!
# What resolving does to cache and disk

Resolving changes the cache through loads alone, and the disk through loads and through looks for the
boundary marker. `Effect` says so once: a relation between before and after that both kinds of step
keep, and that is reflexive and transitive, is kept by a scan and by all that is built on it.
-/

namespace PathIgnore

variable {σ α β : Type}

/-- The cache and the disk that a computation leaves. -/
def Traced.state (t : Traced σ α) : Cache × σ := (t.cache, t.disk)

/-- A relation between what stands before and what stands after that everything in between keeps. -/
structure Effect (d : Disk σ) (R : Cache × σ → Cache × σ → Prop) : Prop where
  refl : ∀ x, R x x
  trans : ∀ {x y z}, R x y → R y z → R x z
  load : ∀ quiet path c w, R (c, w) (c.load d quiet path w).state
  has : ∀ path c w, R (c, w) (c, (d.has path w).2)

namespace Effect

variable {d : Disk σ} {R : Cache × σ → Cache × σ → Prop}

theorem scan (h : Effect d R) (shown : Diagnostics) : ∀ (plan : List Consultation) (c : Cache) (w : σ),
    R (c, w) (Resolve.scan d shown plan c w).state
  | [], _, _ => h.refl _
  | step :: rest, c, w => by
    have hload := h.load shown.quiet step.file c w
    rw [Resolve.scan]
    split
    · exact hload
    · exact h.trans hload (h.scan shown rest _ _)
    · split
      · exact hload
      · exact h.trans hload (h.scan shown rest _ _)

theorem firstWithMarker (h : Effect d R) (marker : Text) (c : Cache) : ∀ (l : List Text) (w : σ),
    R (c, w) (c, (Chain.firstWithMarker d marker l w).2)
  | [], _ => h.refl _
  | directory :: rest, w => by
    have hhas := h.has (Path.join directory marker) c w
    rw [Chain.firstWithMarker]
    dsimp only
    split
    · exact hhas
    · exact h.trans hhas (h.firstWithMarker marker c rest _)

theorem within (h : Effect d R) (s : Settings) (path : Text) (root : Option Text) (c : Cache)
    (w : σ) : R (c, w) (Resolve.within d s path root c w).state := by
  unfold Resolve.within
  extract_lets settled
  split
  · exact h.refl _
  · split
    · exact h.refl _
    · exact h.scan _ _ c w

theorem resolve (h : Effect d R) (s : Settings) (path : Text) (c : Cache) (w : σ) :
    R (c, w) (Resolve.resolve d s path c w).state :=
  h.trans (h.firstWithMarker s.boundaryMarker c (Path.ancestors path) w) (h.within s path _ c _)

end Effect

@[simp] theorem Resolve.state_announce (shown : Diagnostics) (t : Traced σ Resolution) :
    (announce shown t).state = t.state := by
  unfold announce
  split <;> rfl

@[simp] theorem Resolve.answer_announce (shown : Diagnostics) (t : Traced σ Resolution) :
    (announce shown t).answer = t.answer := by
  unfold announce
  split <;> rfl

end PathIgnore
