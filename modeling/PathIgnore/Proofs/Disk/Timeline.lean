import Mathlib.Data.Nat.Init
import PathIgnore.Disk.Basic

/-!
# Disks that others write to

A `Timeline` says how every path stands at every moment, so it is any history of a disk, with changes
at any time. Whoever watches it (`Watch`) makes one observation at a time, and any number of moments
may pass after each: between two observations of one operation the disk may become another one.

Two assumptions on a history are compared.

* `Timeline.Renews`: what a path yields changes only together with a fingerprint that the path never
  had before.
* `Timeline.NeverReturns`: and no fingerprint from before such a change is ever shown again.

The second one gives what remembering files needs (`NeverReturnsUntil.read_eq`): between two moments at
which a path shows one fingerprint, what it yields stays the same. The first one does not, because a
change of the fingerprint alone may bring an old one back.
-/

namespace PathIgnore

/-- How every path stands at one moment. -/
structure Snapshot where
  stat : Text → Except PathFault (Option Fingerprint)
  read : Text → Except PathFault Reading
  has : Text → Bool

/-- The path shows this fingerprint. -/
def Snapshot.Shows (s : Snapshot) (path : Text) (f : Fingerprint) : Prop :=
  s.stat path = .ok (some f)

/-- How every path stands at every moment. -/
abbrev Timeline := Nat → Snapshot

/-! ## Watching -/

/-- What is looked at. -/
inductive Look where
  | stat | read | has
  deriving DecidableEq, Repr

/-- An observation and its moment. -/
structure Sighting where
  look : Look
  path : Text
  moment : Nat
  deriving DecidableEq, Repr

/-- Someone who watches a disk: the present moment, the number of moments that pass after each of the
coming observations, and the observations made so far. -/
structure Watch where
  now : Nat
  delays : List Nat := []
  log : List Sighting := []

namespace Watch

/-- Notes an observation. When no delays are left, no time passes. -/
def note (w : Watch) (look : Look) (path : Text) : Watch :=
  ⟨w.now + w.delays.headD 0, w.delays.tail, w.log ++ [⟨look, path, w.now⟩]⟩

/-- Lets moments pass without looking. -/
def wait (moments : Nat) (w : Watch) : Watch := { w with now := w.now + moments }

/-- The observations made between `start` and a later state. -/
def since (start w : Watch) : List Sighting := w.log.drop start.log.length

@[simp] theorem log_note (w : Watch) (look : Look) (path : Text) :
    (w.note look path).log = w.log ++ [⟨look, path, w.now⟩] := rfl

theorem now_le_note (w : Watch) (look : Look) (path : Text) : w.now ≤ (w.note look path).now :=
  Nat.le_add_right _ _

end Watch

/-- The history as a disk for someone who watches. -/
def Timeline.disk (t : Timeline) : Disk Watch where
  stat path w := ((t w.now).stat path, w.note .stat path)
  read path w := ((t w.now).read path, w.note .read path)
  has path w := ((t w.now).has path, w.note .has path)

/-! ## Stillness, and assumptions on changes -/

namespace Timeline

/-- The disk stands as the snapshot says, from the first moment to the last. -/
def StandsStill (t : Timeline) (s : Snapshot) (first last : Nat) : Prop :=
  ∀ m, first ≤ m → m ≤ last → t m = s

theorem StandsStill.later {t : Timeline} {s : Snapshot} {first later last : Nat}
    (h : t.StandsStill s first last) (hle : first ≤ later) : t.StandsStill s later last :=
  fun m hm hlast => h m (Nat.le_trans hle hm) hlast

/-- What a path yields changes after this moment. -/
def ChangesAfter (t : Timeline) (path : Text) (m : Nat) : Prop :=
  (t m).read path ≠ (t (m + 1)).read path

/-- A path that has no fingerprint gets one after this moment. -/
def AppearsAfter (t : Timeline) (path : Text) (m : Nat) : Prop :=
  (t m).stat path = .ok none ∧ ∃ f, (t (m + 1)).Shows path f

/-- Each change of what a path yields, and each re-creation, gives the path a fingerprint that it never
had before. -/
def Renews (t : Timeline) : Prop :=
  ∀ path m, t.ChangesAfter path m ∨ t.AppearsAfter path m →
    ∀ f, (t (m + 1)).Shows path f → ∀ i ≤ m, ¬ (t i).Shows path f

/-- From each change of what a path yields on, the path shows no fingerprint that it had before; this up
to some moment. -/
def NeverReturnsUntil (t : Timeline) (last : Nat) : Prop :=
  ∀ path m, t.ChangesAfter path m →
    ∀ f, ∀ j > m, j ≤ last → (t j).Shows path f → ∀ i ≤ m, ¬ (t i).Shows path f

/-- From each change of what a path yields on, the path shows no fingerprint that it had before. -/
def NeverReturns (t : Timeline) : Prop := ∀ last, t.NeverReturnsUntil last

theorem NeverReturnsUntil.mono {t : Timeline} {earlier last : Nat} (hle : earlier ≤ last)
    (h : t.NeverReturnsUntil last) : t.NeverReturnsUntil earlier :=
  fun path m hchange f j hmj hj => h path m hchange f j hmj (Nat.le_trans hj hle)

/-- **Between two moments with one fingerprint, what a path yields stays the same.** -/
theorem NeverReturnsUntil.read_eq {t : Timeline} {last : Nat} (h : t.NeverReturnsUntil last)
    {path : Text} {f : Fingerprint} {i j : Nat} (hlast : j ≤ last) (hi : (t i).Shows path f)
    (hj : (t j).Shows path f) : ∀ m, i ≤ m → m ≤ j → (t m).read path = (t i).read path := by
  intro m him
  induction m, him using Nat.le_induction with
  | base => exact fun _ => rfl
  | succ m him ih =>
    intro hmj
    -- A change just before `m + 1` would come between the two moments with the fingerprint.
    apply Classical.byContradiction
    intro hne
    have hchange : t.ChangesAfter path m := by
      intro heq
      exact hne (heq ▸ ih (Nat.le_of_succ_le hmj))
    exact h path m hchange f j hmj hlast hj i him hi

/-! ## Some histories -/

/-- A disk that never changes. -/
def still (s : Snapshot) : Timeline := fun _ => s

theorem still_neverReturns (s : Snapshot) : (still s).NeverReturns :=
  fun _ _ _ hchange => absurd rfl hchange

theorem still_standsStill (s : Snapshot) (first last : Nat) : (still s).StandsStill s first last :=
  fun _ _ _ => rfl

end Timeline

/-- A disk with one file. -/
def Snapshot.single (path : Text) (f : Fingerprint) (lines : List Text) : Snapshot where
  stat p := .ok (if p = path then some f else none)
  read p := .ok (if p = path then .lines lines else .missing)
  has p := p == path

theorem Snapshot.single_shows_iff {path p : Text} {f g : Fingerprint} {lines : List Text} :
    (single path f lines).Shows p g ↔ p = path ∧ f = g := by
  simp [Shows, single]

namespace Timeline

/-- A file that is written twice. -/
def written (path : Text) (first second : Fingerprint) (old new : List Text) : Timeline
  | 0 => .single path first old
  | _ => .single path second new

/-- A file that is written twice and then gets its old fingerprint back. -/
def reverted (path : Text) (first second : Fingerprint) (old new : List Text) : Timeline
  | 0 => .single path first old
  | 1 => .single path second new
  | _ => .single path first new

variable {path : Text} {first second : Fingerprint} {old new : List Text}

theorem written_neverReturns (hne : first ≠ second) :
    (written path first second old new).NeverReturns := by
  intro last p m hchange f j hmj _ hj i him hi
  cases m with
  | zero =>
    obtain ⟨j, rfl⟩ := Nat.exists_eq_succ_of_ne_zero (Nat.ne_of_gt hmj)
    obtain rfl := Nat.le_zero.mp him
    obtain ⟨-, hfirst⟩ := Snapshot.single_shows_iff.mp hi
    obtain ⟨-, hsecond⟩ := Snapshot.single_shows_iff.mp hj
    exact hne (hfirst.trans hsecond.symm)
  | succ m => exact hchange rfl

theorem reverted_renews (hne : first ≠ second) : (reverted path first second old new).Renews := by
  intro p m hchange f hf i him hi
  cases m with
  | zero =>
    obtain rfl := Nat.le_zero.mp him
    obtain ⟨-, hfirst⟩ := Snapshot.single_shows_iff.mp hi
    obtain ⟨-, hsecond⟩ := Snapshot.single_shows_iff.mp hf
    exact hne (hfirst.trans hsecond.symm)
  | succ m =>
    rcases hchange with hread | ⟨hnone, g, hg⟩
    · cases m <;> exact hread rfl
    · have hp : p = path := by
        cases m <;> exact (Snapshot.single_shows_iff.mp hg).1
      cases m <;> simp [reverted, Snapshot.single, hp] at hnone

end Timeline

end PathIgnore
