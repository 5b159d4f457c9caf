import PathIgnore.Cache.Basic

/-!
# What a load does

`Loaded` lists the ways in which a load goes, each with the observations that it makes and with what it
leaves behind; `loaded` says that there are no others. Everything about loads is a case analysis over
this list, so no other proof looks into `Cache.load`.

What holds of every entry of a cache (`Every`) is not lost by forgetting or by a miss, and is kept if it
holds of what is remembered.
-/

namespace PathIgnore.Cache

variable {σ : Type}

/-- That an entry is dropped is noted. -/
def dropNotices (c : Cache) (path : Text) : List Notice :=
  if c.contains path then [.stale path] else []

/-- The notices on the lines that do not compile. -/
def badLines (quiet : Bool) (rules : RuleSet) : List Notice :=
  Notice.tell (!quiet) (rules.errors.map .badRule)

/-- The ways in which a load goes. -/
inductive Loaded (d : Disk σ) (quiet : Bool) (path : Text) (c : Cache) (w : σ) :
    Traced σ (Option RuleSet) → Prop
  /-- The path names no file. -/
  | refused {fault : PathFault} {w₁ : σ} (hstat : d.stat path w = (.error fault, w₁)) :
      Loaded d quiet path c w ⟨.error fault, c, w₁, []⟩
  /-- The entry is served. -/
  | hit {e : CacheEntry} {w₁ : σ} (hfind : c.find? path = some e)
      (hstat : d.stat path w = (.ok (some e.fingerprint), w₁)) :
      Loaded d quiet path c w ⟨.ok (some e.rules), c.countHit, w₁, []⟩
  /-- There is no file. -/
  | absent {w₁ : σ} (hstat : d.stat path w = (.ok none, w₁)) :
      Loaded d quiet path c w ⟨.ok none, c.countMiss path, w₁, c.dropNotices path⟩
  /-- The path is refused when the file is read. -/
  | readRefused {seen : Fingerprint} {fault : PathFault} {w₁ w₂ : σ}
      (hstat : d.stat path w = (.ok (some seen), w₁)) (hold : c.fresh? path (some seen) = none)
      (hread : d.read path w₁ = (.error fault, w₂)) :
      Loaded d quiet path c w ⟨.error fault, c.countMiss path, w₂, c.dropNotices path⟩
  /-- The file is gone when it is read. -/
  | missing {seen : Fingerprint} {w₁ w₂ : σ}
      (hstat : d.stat path w = (.ok (some seen), w₁)) (hold : c.fresh? path (some seen) = none)
      (hread : d.read path w₁ = (.ok .missing, w₂)) :
      Loaded d quiet path c w ⟨.ok none, c.countMiss path, w₂, c.dropNotices path⟩
  /-- The file cannot be read. -/
  | unreadable {seen : Fingerprint} {fault : ReadFault} {w₁ w₂ : σ}
      (hstat : d.stat path w = (.ok (some seen), w₁)) (hold : c.fresh? path (some seen) = none)
      (hread : d.read path w₁ = (.ok (.unreadable fault), w₂)) :
      Loaded d quiet path c w ⟨.ok none, c.countMiss path, w₂,
        c.dropNotices path ++ Notice.tell (!quiet) [.unreadable path fault]⟩
  /-- The path is refused after the file was read. -/
  | againRefused {seen : Fingerprint} {lines : List Text} {fault : PathFault} {w₁ w₂ w₃ : σ}
      (hstat : d.stat path w = (.ok (some seen), w₁)) (hold : c.fresh? path (some seen) = none)
      (hread : d.read path w₁ = (.ok (.lines lines), w₂))
      (hagain : d.stat path w₂ = (.error fault, w₃)) :
      Loaded d quiet path c w ⟨.error fault, c.countMiss path, w₃,
        c.dropNotices path ++ badLines quiet (.ofLines path lines)⟩
  /-- The file is gone after it was read. -/
  | vanished {seen : Fingerprint} {lines : List Text} {w₁ w₂ w₃ : σ}
      (hstat : d.stat path w = (.ok (some seen), w₁)) (hold : c.fresh? path (some seen) = none)
      (hread : d.read path w₁ = (.ok (.lines lines), w₂))
      (hagain : d.stat path w₂ = (.ok none, w₃)) :
      Loaded d quiet path c w ⟨.ok none, c.countMiss path, w₃,
        c.dropNotices path ++ (badLines quiet (.ofLines path lines) ++ Notice.tell (!quiet) [.vanished path])⟩
  /-- The file shows another fingerprint after it was read. -/
  | changed {seen again : Fingerprint} {lines : List Text} {w₁ w₂ w₃ : σ}
      (hstat : d.stat path w = (.ok (some seen), w₁)) (hold : c.fresh? path (some seen) = none)
      (hread : d.read path w₁ = (.ok (.lines lines), w₂))
      (hagain : d.stat path w₂ = (.ok (some again), w₃)) (hne : again ≠ seen) :
      Loaded d quiet path c w ⟨.ok (some (.ofLines path lines)), c.countMiss path, w₃,
        c.dropNotices path ++ (badLines quiet (.ofLines path lines) ++ [.changedDuringRead path])⟩
  /-- The file is read and remembered. -/
  | kept {seen : Fingerprint} {lines : List Text} {w₁ w₂ w₃ : σ}
      (hstat : d.stat path w = (.ok (some seen), w₁)) (hold : c.fresh? path (some seen) = none)
      (hread : d.read path w₁ = (.ok (.lines lines), w₂))
      (hagain : d.stat path w₂ = (.ok (some seen), w₃)) :
      Loaded d quiet path c w ⟨.ok (some (.ofLines path lines)),
        (c.countMiss path).remember path ⟨.ofLines path lines, seen⟩, w₃,
        c.dropNotices path ++ badLines quiet (.ofLines path lines)⟩

/-- **A load goes in one of the ways listed.** -/
theorem loaded (d : Disk σ) (quiet : Bool) (path : Text) (c : Cache) (w : σ) :
    Loaded d quiet path c w (c.load d quiet path w) := by
  unfold load
  split
  · next hstat => exact .refused hstat
  · next current w₁ hstat =>
    split
    · next rules hfresh =>
      obtain ⟨e, hfind, rfl, rfl⟩ := fresh?_eq_some_iff.mp hfresh
      exact .hit hfind hstat
    · next hold =>
      cases current with
      | none => exact .absent hstat
      | some seen =>
        simp only [readAnew, Traced.after]
        split
        · next hread =>
          rw [List.append_nil]
          exact .readRefused hstat hold hread
        · next hread =>
          rw [List.append_nil]
          exact .missing hstat hold hread
        · next hread => exact .unreadable hstat hold hread
        · next hread =>
          split
          · next hagain => exact .againRefused hstat hold hread hagain
          · next hagain => exact .vanished hstat hold hread hagain
          · next again w₃ hagain =>
            split
            · next heq =>
              subst heq
              exact .kept hstat hold hread hagain
            · next hne => exact .changed hstat hold hread hagain hne

/-! ## What holds of every entry -/

/-- Every entry has the property, together with its path. -/
def Every (P : Text → CacheEntry → Prop) (c : Cache) : Prop := ∀ path e, c.find? path = some e → P path e

variable {P : Text → CacheEntry → Prop} {c : Cache} {path : Text}

theorem every_empty : Every P .empty := by
  intro path e he
  simp [empty, find?] at he

theorem Every.invalidate (hc : c.Every P) (forgotten : Option Text) : (c.invalidate forgotten).Every P := by
  intro path e he
  refine hc path e ?_
  cases forgotten with
  | none => simp [Cache.invalidate, find?] at he
  | some p =>
    rw [find?, Cache.invalidate, Std.TreeMap.getElem?_erase] at he
    split at he
    · cases he
    · exact he

theorem Every.countMiss (hc : c.Every P) (path : Text) : (c.countMiss path).Every P := by
  intro other e he
  rw [find?_countMiss] at he
  split at he
  · cases he
  · exact hc other e he

theorem Every.remember (hc : c.Every P) {e : CacheEntry} (he : P path e) :
    (c.remember path e).Every P := by
  intro other e' he'
  rw [find?_remember] at he'
  split at he'
  · next hpath =>
    cases he'
    exact hpath ▸ he
  · exact hc other e' he'

end PathIgnore.Cache
