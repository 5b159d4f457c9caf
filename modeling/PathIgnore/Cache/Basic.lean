import PathIgnore.Resolve.Notice
import PathIgnore.Rule.RuleSet
import Std.Data.TreeMap

/-!
# Remembering ignore files

The cache keeps the rules of ignore files by path, each with the fingerprint that the file had before
and after it was read. An entry is served as long as the file shows that very fingerprint; when it
shows another or none, the entry is dropped and the file read anew.

A load makes up to three observations: the fingerprint, the lines, and the fingerprint again. Only if
the two fingerprints agree are the rules kept, so a file that changes in between is served but not
remembered. A quiet load says nothing of what cannot be read, of bad lines and of a file that vanishes;
that a file has changed it says too.
-/

namespace PathIgnore

/-- The rules of a file and the fingerprint under which they were read. -/
structure CacheEntry where
  rules : RuleSet
  fingerprint : Fingerprint

/-- Remembered files, and counts of what loading came to. -/
structure Cache where
  entries : Std.TreeMap Text CacheEntry
  /-- Loads that an entry served. -/
  hits : Nat
  /-- Loads that no entry served. -/
  misses : Nat
  /-- Entries that were dropped because the file had changed. -/
  reloads : Nat

/-- What a computation over cache and disk leaves behind: its answer, or the fault of a path that ended
it, the cache and the disk, and what there is to tell. -/
structure Traced (σ α : Type) where
  answer : Except PathFault α
  cache : Cache
  disk : σ
  notices : List Notice

/-- Puts earlier notices in front. -/
def Traced.after {σ α : Type} (earlier : List Notice) (t : Traced σ α) : Traced σ α :=
  { t with notices := earlier ++ t.notices }

/-- The same computation with its answer changed. -/
def Traced.mapAnswer {σ α β : Type} (f : α → β) (t : Traced σ α) : Traced σ β :=
  ⟨t.answer.map f, t.cache, t.disk, t.notices⟩

namespace Cache

/-- A cache that remembers nothing. -/
def empty : Cache := ⟨∅, 0, 0, 0⟩

/-- How many files are remembered. -/
def size (c : Cache) : Nat := c.entries.size

/-- The entry for a path. -/
def find? (c : Cache) (path : Text) : Option CacheEntry := c.entries[path]?

/-- Whether a path is remembered. -/
def contains (c : Cache) (path : Text) : Bool := (c.find? path).isSome

/-- Forgets one path, or everything. Nothing is counted. -/
def invalidate (c : Cache) : Option Text → Cache
  | none => { c with entries := ∅ }
  | some path => { c with entries := c.entries.erase path }

/-- The rules of a path whose file shows its remembered fingerprint. -/
def fresh? (c : Cache) (path : Text) (current : Option Fingerprint) : Option RuleSet :=
  match c.find? path with
  | some e => if current = some e.fingerprint then some e.rules else none
  | none => none

/-- Counts a load that an entry served. -/
def countHit (c : Cache) : Cache := { c with hits := c.hits + 1 }

/-- Counts a load that no entry served; an entry for the path is dropped. -/
def countMiss (c : Cache) (path : Text) : Cache :=
  if c.contains path then
    { c with
      entries := c.entries.erase path, misses := c.misses + 1, reloads := c.reloads + 1 }
  else { c with misses := c.misses + 1 }

/-- Remembers the rules of a path. -/
def remember (c : Cache) (path : Text) (e : CacheEntry) : Cache :=
  { c with entries := c.entries.insert path e }

/-! ## Loading -/

/-- Reads the file that has just shown `seen`, and remembers its rules if it shows the same again. -/
def readAnew {σ : Type} (d : Disk σ) (quiet : Bool) (path : Text) (seen : Fingerprint) (c : Cache)
    (w : σ) : Traced σ (Option RuleSet) :=
  match d.read path w with
  | (.error fault, w) => ⟨.error fault, c, w, []⟩
  | (.ok .missing, w) => ⟨.ok none, c, w, []⟩
  | (.ok (.unreadable fault), w) => ⟨.ok none, c, w, Notice.tell (!quiet) [.unreadable path fault]⟩
  | (.ok (.lines lines), w) =>
    let rules := RuleSet.ofLines path lines
    let bad := Notice.tell (!quiet) (rules.errors.map .badRule)
    match d.stat path w with
    | (.error fault, w) => ⟨.error fault, c, w, bad⟩
    | (.ok none, w) => ⟨.ok none, c, w, bad ++ Notice.tell (!quiet) [.vanished path]⟩
    | (.ok (some again), w) =>
      if again = seen then ⟨.ok (some rules), c.remember path ⟨rules, again⟩, w, bad⟩
      -- Which of the two states the lines belong to is unknown, so the next load has to read again.
      else ⟨.ok (some rules), c, w, bad ++ [.changedDuringRead path]⟩

/-- The rules of an ignore file; none if it is not there or cannot be read. -/
def load {σ : Type} (d : Disk σ) (quiet : Bool) (path : Text) (c : Cache) (w : σ) :
    Traced σ (Option RuleSet) :=
  match d.stat path w with
  | (.error fault, w) => ⟨.error fault, c, w, []⟩
  | (.ok current, w) =>
    match c.fresh? path current with
    | some rules => ⟨.ok (some rules), c.countHit, w, []⟩
    | none =>
      let dropped := if c.contains path then [Notice.stale path] else []
      match current with
      | none => ⟨.ok none, c.countMiss path, w, dropped⟩
      | some seen => (readAnew d quiet path seen (c.countMiss path) w).after dropped

/-! ## Small laws -/

/-- Remembering sets the entry of its path and no other. -/
theorem find?_remember (c : Cache) (path other : Text) (e : CacheEntry) :
    (c.remember path e).find? other = if path = other then some e else c.find? other := by
  simp [find?, remember, Std.TreeMap.getElem?_insert]

/-- A miss drops the entry of its path and no other. -/
theorem find?_countMiss (c : Cache) (path other : Text) :
    (c.countMiss path).find? other = if path = other then none else c.find? other := by
  unfold countMiss
  split
  · simp [find?, Std.TreeMap.getElem?_erase]
  · next h =>
    split
    · next heq =>
      subst heq
      change c.find? path = none
      simpa [contains] using h
    · rfl

/-- The rules served from memory are those of the entry, whose fingerprint is the current one. -/
theorem fresh?_eq_some_iff {c : Cache} {path : Text} {current : Option Fingerprint} {rules : RuleSet} :
    c.fresh? path current = some rules ↔
      ∃ e, c.find? path = some e ∧ current = some e.fingerprint ∧ e.rules = rules := by
  unfold fresh?
  split
  · next e he =>
    simp only [he, Option.some.injEq, exists_eq_left']
    split <;> simp_all
  · next h => simp [h]

end Cache

end PathIgnore
