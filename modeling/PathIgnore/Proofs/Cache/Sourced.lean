import PathIgnore.Proofs.Cache.Load
import PathIgnore.Proofs.Resolve.Effect
import PathIgnore.Proofs.Rule.Lines

/-!
# Where remembered rules come from

The rules of a file name that file, because they are read under its path and remembered under the same
path (`Loaded.sourced`). So whatever a cache serves for a path has that path as its source
(`Loaded.comesFrom`).
-/

namespace PathIgnore

/-- All rules name this file as their source. -/
def RuleSet.ComesFrom (path : Text) (s : RuleSet) : Prop := ∀ r ∈ s.rules, r.source = path

theorem RuleSet.comesFrom_ofLines (path : Text) (lines : List Text) :
    (ofLines path lines).ComesFrom path := fun _ => source_of_mem_ofLines

namespace Cache

/-- What is remembered of a path comes from there. -/
def Sourced (c : Cache) : Prop := c.Every fun path e => e.rules.ComesFrom path

variable {σ : Type} {d : Disk σ} {quiet : Bool} {path : Text} {c : Cache} {w : σ}
  {l : Traced σ (Option RuleSet)}

theorem Loaded.sourced (h : Loaded d quiet path c w l) (hc : c.Sourced) : l.cache.Sourced := by
  cases h with
  | refused | hit => exact hc
  | absent | readRefused | missing | unreadable | againRefused | vanished | changed =>
    exact Every.countMiss hc path
  | kept => exact (Every.countMiss hc path).remember (RuleSet.comesFrom_ofLines _ _)

/-- **What a load answers comes from its path.** -/
theorem Loaded.comesFrom (h : Loaded d quiet path c w l) (hc : c.Sourced) {rules : RuleSet}
    (hanswer : l.answer = .ok (some rules)) : rules.ComesFrom path := by
  cases h with
  | hit hfind =>
    cases hanswer
    exact hc _ _ hfind
  | changed | kept =>
    cases hanswer
    exact RuleSet.comesFrom_ofLines _ _
  | refused | absent | readRefused | missing | unreadable | againRefused | vanished => cases hanswer

theorem effect_sourced (d : Disk σ) : Effect d fun x y => x.1.Sourced → y.1.Sourced where
  refl := fun _ hc => hc
  trans := fun hxy hyz hc => hyz (hxy hc)
  load := fun quiet path c w hc => (loaded d quiet path c w).sourced hc
  has := fun _ _ _ hc => hc

end Cache

end PathIgnore
