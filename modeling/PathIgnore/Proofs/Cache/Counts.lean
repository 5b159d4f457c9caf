import PathIgnore.Proofs.Cache.Load
import PathIgnore.Proofs.Disk.Timeline

/-!
# What loads and forgetting do to the counts

`Cache.Counts t calls c c'` says how the counts of a cache come from `c` to `c'` when these calls of
`Cache.load` are made on it in between, and anything is forgotten. It holds of one call (`counts_load`)
and of forgetting (`counts_invalidate`), and it composes (`Counts.trans`).

Two facts carry the bounds. A miss turns an entry that it drops into a reload, so the two together stay
the same (`reloads_add_size_countMiss`); only what is remembered afterwards adds to them, and that is one
entry, for one miss. And nothing is read but in a miss, once.
-/

namespace PathIgnore

/-- A call of `Cache.load`: its arguments, and the cache and the disk that it starts from. -/
structure LoadCall where
  path : Text
  quiet : Bool
  cache : Cache
  watch : Watch

/-- The observation is a reading. -/
def Sighting.isReading (g : Sighting) : Bool := g.look == .read

/-- How many readings have been made. -/
def Watch.readings (w : Watch) : Nat := w.log.countP (·.isReading)

namespace LoadCall

/-- The disk does not say how the path stands when the call first looks. -/
def isRefused (t : Timeline) (call : LoadCall) : Bool := !((t call.watch.now).stat call.path).isOk

/-- The observations of the call. -/
def seen (t : Timeline) (call : LoadCall) : List Sighting :=
  call.watch.since (call.cache.load t.disk call.quiet call.path call.watch).disk

/-- How many readings the calls make. -/
def readings (t : Timeline) (calls : List LoadCall) : Nat :=
  (calls.flatMap (·.seen t)).countP (·.isReading)

@[simp] theorem readings_nil (t : Timeline) : readings t [] = 0 := rfl

@[simp] theorem readings_append (t : Timeline) (calls more : List LoadCall) :
    readings t (calls ++ more) = readings t calls + readings t more := by
  simp [readings]

end LoadCall

namespace Cache

/-- No count is lower afterwards. -/
structure CountsUpTo (c c' : Cache) : Prop where
  hits_le : c.hits ≤ c'.hits
  misses_le : c.misses ≤ c'.misses
  reloads_le : c.reloads ≤ c'.reloads

/-- All counts are the same afterwards. -/
structure CountsStay (c c' : Cache) : Prop where
  hits : c'.hits = c.hits
  misses : c'.misses = c.misses
  reloads : c'.reloads = c.reloads

/-- The counts come from those of `c` to those of `c'` by these calls and by forgetting. -/
structure Counts (t : Timeline) (calls : List LoadCall) (c c' : Cache) : Prop
    extends c.CountsUpTo c' where
  /-- A call counts as a hit or as a miss unless it is refused at its first look. -/
  loads : c'.hits + c'.misses + calls.countP (·.isRefused t) = c.hits + c.misses + calls.length
  entries : c'.reloads + c'.size + c.misses ≤ c.reloads + c.size + c'.misses
  readings : LoadCall.readings t calls + c.misses ≤ c'.misses

/-- The counts tell of these calls. -/
structure Accounts (t : Timeline) (calls : List LoadCall) (c : Cache) : Prop where
  loads : c.hits + c.misses + calls.countP (·.isRefused t) = calls.length
  entries : c.reloads + c.size ≤ c.misses
  readings : LoadCall.readings t calls ≤ c.misses

variable {t : Timeline} {calls more : List LoadCall} {c c' c'' : Cache} {path : Text} {w : Watch}

theorem Counts.accounts (h : empty.Counts t calls c) : c.Accounts t calls where
  loads := by simpa [empty] using h.loads
  entries := by simpa [empty, size] using h.entries
  readings := h.readings

theorem CountsUpTo.refl (c : Cache) : c.CountsUpTo c := ⟨Nat.le_refl _, Nat.le_refl _, Nat.le_refl _⟩

theorem CountsUpTo.trans (h : c.CountsUpTo c') (h' : c'.CountsUpTo c'') : c.CountsUpTo c'' :=
  ⟨Nat.le_trans h.hits_le h'.hits_le, Nat.le_trans h.misses_le h'.misses_le,
    Nat.le_trans h.reloads_le h'.reloads_le⟩

theorem CountsStay.upTo (h : c.CountsStay c') : c.CountsUpTo c' :=
  ⟨Nat.le_of_eq h.hits.symm, Nat.le_of_eq h.misses.symm, Nat.le_of_eq h.reloads.symm⟩

theorem CountsStay.refl (c : Cache) : c.CountsStay c := ⟨rfl, rfl, rfl⟩

theorem countsStay_invalidate (c : Cache) (forgotten : Option Text) :
    c.CountsStay (c.invalidate forgotten) := by
  cases forgotten <;> exact ⟨rfl, rfl, rfl⟩

theorem Counts.refl (c : Cache) : c.Counts t [] c :=
  ⟨.refl c, rfl, Nat.le_refl _, by simp⟩

theorem Counts.trans (h : c.Counts t calls c') (h' : c'.Counts t more c'') :
    c.Counts t (calls ++ more) c'' where
  toCountsUpTo := h.toCountsUpTo.trans h'.toCountsUpTo
  loads := by
    have hfirst := h.loads
    have hsecond := h'.loads
    rw [List.countP_append, List.length_append]
    omega
  entries := by
    have hfirst := h.entries
    have hsecond := h'.entries
    omega
  readings := by
    have hfirst := h.readings
    have hsecond := h'.readings
    rw [LoadCall.readings_append]
    omega

/-! ## Forgetting and remembering -/

/-- The size is the number of paths that are remembered. -/
theorem exists_paths (c : Cache) : ∃ paths : List Text,
    paths.Nodup ∧ (∀ path, path ∈ paths ↔ c.contains path = true) ∧ paths.length = c.size :=
  ⟨c.entries.keys, Std.TreeMap.nodup_keys,
    fun _ => Std.TreeMap.mem_keys.trans Std.TreeMap.isSome_getElem?_iff_mem.symm,
    Std.TreeMap.length_keys⟩

theorem size_invalidate_le (c : Cache) (forgotten : Option Text) :
    (c.invalidate forgotten).size ≤ c.size := by
  cases forgotten with
  | none => exact Nat.zero_le _
  | some path => exact Std.TreeMap.size_erase_le

/-- **Forgetting counts nothing.** -/
theorem counts_invalidate (c : Cache) (forgotten : Option Text) :
    c.Counts t [] (c.invalidate forgotten) := by
  have hsize := c.size_invalidate_le forgotten
  obtain ⟨hhits, hmisses, hreloads⟩ := c.countsStay_invalidate forgotten
  refine ⟨CountsStay.upTo ⟨hhits, hmisses, hreloads⟩, ?_, by omega, ?_⟩
  · rw [hhits, hmisses, List.countP_nil, List.length_nil]
  · rw [LoadCall.readings_nil, Nat.zero_add]
    exact Nat.le_of_eq hmisses.symm

@[simp] theorem misses_countHit (c : Cache) : c.countHit.misses = c.misses := rfl

@[simp] theorem hits_countMiss (c : Cache) (path : Text) : (c.countMiss path).hits = c.hits := by
  unfold countMiss
  split <;> rfl

@[simp] theorem hits_remember (c : Cache) (path : Text) (e : CacheEntry) :
    (c.remember path e).hits = c.hits := rfl

@[simp] theorem misses_remember (c : Cache) (path : Text) (e : CacheEntry) :
    (c.remember path e).misses = c.misses := rfl

@[simp] theorem reloads_remember (c : Cache) (path : Text) (e : CacheEntry) :
    (c.remember path e).reloads = c.reloads := rfl

@[simp] theorem misses_countMiss (c : Cache) (path : Text) : (c.countMiss path).misses = c.misses + 1 := by
  unfold countMiss
  split <;> rfl

theorem reloads_le_countMiss (c : Cache) (path : Text) : c.reloads ≤ (c.countMiss path).reloads := by
  unfold countMiss
  split
  · exact Nat.le_succ _
  · exact Nat.le_refl _

/-- **A miss turns the entry that it drops into a reload.** -/
theorem reloads_add_size_countMiss (c : Cache) (path : Text) :
    (c.countMiss path).reloads + (c.countMiss path).size = c.reloads + c.size := by
  unfold countMiss
  split
  · next hcontains =>
    have hmem : path ∈ c.entries := Std.TreeMap.isSome_getElem?_iff_mem.mp hcontains
    have hnonempty : c.entries.isEmpty = false :=
      Std.TreeMap.isEmpty_eq_false_iff_exists_mem.mpr ⟨path, hmem⟩
    have hpositive : c.entries.size ≠ 0 := by
      rw [Std.TreeMap.isEmpty_eq_size_eq_zero] at hnonempty
      exact ne_of_beq_false hnonempty
    have herase : (c.entries.erase path).size = c.entries.size - 1 := by
      rw [Std.TreeMap.size_erase, if_pos (Std.TreeMap.contains_iff_mem.mpr hmem)]
    simp only [size, herase]
    omega
  · rfl

theorem size_remember_le (c : Cache) (path : Text) (e : CacheEntry) :
    (c.remember path e).size ≤ c.size + 1 :=
  Std.TreeMap.size_insert_le

/-! ## Loads -/

variable {σ : Type} {d : Disk σ} {quiet : Bool} {v : σ} {l : Traced σ (Option RuleSet)}

theorem Loaded.hits_le (h : Loaded d quiet path c v l) : c.hits ≤ l.cache.hits := by
  cases h with
  | hit => exact Nat.le_succ _
  | refused | absent | readRefused | missing | unreadable | againRefused | vanished | changed | kept =>
    simp

theorem Loaded.misses_le (h : Loaded d quiet path c v l) : c.misses ≤ l.cache.misses := by
  cases h with
  | refused | hit => exact Nat.le_refl _
  | absent | readRefused | missing | unreadable | againRefused | vanished | changed | kept => simp

theorem Loaded.reloads_le (h : Loaded d quiet path c v l) : c.reloads ≤ l.cache.reloads := by
  cases h with
  | refused | hit => exact Nat.le_refl _
  | absent | readRefused | missing | unreadable | againRefused | vanished | changed | kept =>
    exact c.reloads_le_countMiss path

/-- **What a load remembers comes with a miss.** -/
theorem Loaded.entries_le (h : Loaded d quiet path c v l) :
    l.cache.reloads + l.cache.size + c.misses ≤ c.reloads + c.size + l.cache.misses := by
  have hdropped := c.reloads_add_size_countMiss path
  cases h with
  | refused | hit => exact Nat.le_refl _
  | absent | readRefused | missing | unreadable | againRefused | vanished | changed =>
    simp only [misses_countMiss]
    omega
  | kept =>
    have hsize := fun e => (c.countMiss path).size_remember_le path e
    refine Nat.le_trans (Nat.add_le_add_right (Nat.add_le_add_left (hsize _) _) _) ?_
    simp only [reloads_remember, misses_remember, misses_countMiss]
    omega

/-- **A load counts as one hit or one miss**, unless it is refused at its first look. -/
theorem Loaded.hits_add_misses (h : Loaded d quiet path c v l) :
    l.cache.hits + l.cache.misses =
      c.hits + c.misses + if (d.stat path v).1.isOk then 1 else 0 := by
  cases h with
  | refused hstat =>
    rw [hstat]
    rfl
  | hit _ hstat =>
    rw [hstat]
    exact Nat.add_right_comm _ _ _
  | absent hstat | readRefused hstat | missing hstat | unreadable hstat | againRefused hstat
  | vanished hstat | changed hstat | kept hstat =>
    rw [hstat]
    simp [Except.isOk, Except.toBool, Nat.add_assoc]

/-- **A load reads at most once, and in a miss.** What it observes comes behind what was observed
before. -/
theorem Loaded.exists_seen {l : Traced Watch (Option RuleSet)} (h : Loaded t.disk quiet path c w l) :
    ∃ seen, l.disk.log = w.log ++ seen ∧ seen.countP (·.isReading) + c.misses ≤ l.cache.misses := by
  cases h with
  | refused hstat | hit _ hstat | absent hstat =>
    obtain ⟨-, rfl⟩ := Prod.mk.inj hstat
    exact ⟨_, rfl, by simp [Sighting.isReading]⟩
  | readRefused hstat _ hread | missing hstat _ hread | unreadable hstat _ hread =>
    obtain ⟨-, rfl⟩ := Prod.mk.inj hstat
    obtain ⟨-, rfl⟩ := Prod.mk.inj hread
    exact ⟨_, List.append_assoc _ _ _, by simp [Sighting.isReading, Nat.add_comm]⟩
  | againRefused hstat _ hread hagain | vanished hstat _ hread hagain | changed hstat _ hread hagain
  | kept hstat _ hread hagain =>
    obtain ⟨-, rfl⟩ := Prod.mk.inj hstat
    obtain ⟨-, rfl⟩ := Prod.mk.inj hread
    obtain ⟨-, rfl⟩ := Prod.mk.inj hagain
    refine ⟨_, (List.append_assoc _ _ _).trans (List.append_assoc _ _ _), ?_⟩
    simp [Sighting.isReading, Nat.add_comm]

/-- The readings of a call are made on the disk. -/
theorem readings_load (t : Timeline) (quiet : Bool) (path : Text) (c : Cache) (w : Watch) :
    (c.load t.disk quiet path w).disk.readings =
      w.readings + LoadCall.readings t [⟨path, quiet, c, w⟩] := by
  obtain ⟨seen, hlog, -⟩ := (loaded t.disk quiet path c w).exists_seen
  simp [Watch.readings, LoadCall.readings, LoadCall.seen, Watch.since, hlog]

/-- **What a call of `load` does to the counts.** -/
theorem counts_load (t : Timeline) (quiet : Bool) (path : Text) (c : Cache) (w : Watch) :
    c.Counts t [⟨path, quiet, c, w⟩] (c.load t.disk quiet path w).cache where
  loads := by
    have hloads := (loaded t.disk quiet path c w).hits_add_misses
    rw [hloads, List.countP_singleton, List.length_singleton, LoadCall.isRefused]
    change _ + (if Except.isOk ((t w.now).stat path) = true then 1 else 0) + _ = _
    cases Except.isOk ((t w.now).stat path) <;> simp
  hits_le := (loaded t.disk quiet path c w).hits_le
  misses_le := (loaded t.disk quiet path c w).misses_le
  reloads_le := (loaded t.disk quiet path c w).reloads_le
  entries := (loaded t.disk quiet path c w).entries_le
  readings := by
    obtain ⟨seen, hlog, hreadings⟩ := (loaded t.disk quiet path c w).exists_seen
    simpa [LoadCall.readings, LoadCall.seen, Watch.since, hlog] using hreadings

end Cache

end PathIgnore
