import PathIgnore.Disk.Tree
import PathIgnore.Proofs.Path.Canonical
import PathIgnore.Proofs.Resolve.InStep
import PathIgnore.Proofs.Resolve.Unchanged

/-!
# Resolving goes by what is shown

Whatever disk shows a snapshot as long as it is only looked at (`Disk.Shows`), it is in step with the disk
that never changes from the snapshot. So resolving on it comes to what the snapshot says
(`answer_check_of_shows`). A tree of files and directories is such a disk.

`Resolve.checkAnew` is the answer for a path as it is given, from a cache that remembers nothing.
-/

namespace PathIgnore

/-- As long as the disk is only looked at, it shows the snapshot. -/
def Disk.Shows {σ : Type} (disk : Disk σ) (w : σ) (s : Snapshot) : Prop :=
  ∃ I : σ → Prop, I w ∧ ∀ w, I w → ∀ path,
    ((disk.stat path w).1 = s.stat path ∧ I (disk.stat path w).2) ∧
      ((disk.read path w).1 = s.read path ∧ I (disk.read path w).2) ∧
        ((disk.has path w).1 = s.has path ∧ I (disk.has path w).2)

theorem Timeline.still_shows (s : Snapshot) (w : Watch) : (still s).disk.Shows w s :=
  ⟨fun _ => True, trivial, fun _ _ _ => ⟨⟨rfl, trivial⟩, ⟨rfl, trivial⟩, rfl, trivial⟩⟩

/-- How every path stands on a disk in this state. -/
def Disk.snapshot {σ : Type} (disk : Disk σ) (w : σ) : Snapshot where
  stat path := (disk.stat path w).1
  read path := (disk.read path w).1
  has path := (disk.has path w).1

theorem Tree.disk_shows (t : Tree) : disk.Shows t (disk.snapshot t) := by
  refine ⟨(· = t), rfl, ?_⟩
  rintro _ rfl path
  exact ⟨⟨rfl, rfl⟩, ⟨rfl, rfl⟩, rfl, rfl⟩

/-- A disk with these files and nothing else. -/
def Snapshot.ofFiles (files : List (Text × List Text)) : Snapshot where
  stat path := .ok ((files.lookup path).map fun lines => ⟨1, 0, lines.flatten.length, 7, 0, 0, 0⟩)
  read path := .ok ((files.lookup path).elim .missing .lines)
  has path := (files.lookup path).isSome

theorem Disk.Shows.inStep {σ : Type} {disk : Disk σ} {w : σ} {s : Snapshot} (h : disk.Shows w s) :
    ∃ R : σ → Watch → Prop, disk.InStep (Timeline.still s).disk R ∧ ∀ w', R w w' := by
  obtain ⟨I, hw, hkeep⟩ := h
  refine ⟨fun w _ => I w, ⟨?_, ?_, ?_⟩, fun _ => hw⟩
  · exact fun path _ _ hw => (hkeep _ hw path).1
  · exact fun path _ _ hw => (hkeep _ hw path).2.1
  · exact fun path _ _ hw => (hkeep _ hw path).2.2

/-- **A check on a disk that shows a snapshot comes to what the snapshot says.** -/
theorem Resolve.answer_check_of_shows {σ : Type} {disk : Disk σ} {w : σ} {s : Snapshot}
    (h : disk.Shows w s) (settings : Settings) {path : Text} (hpath : Path.IsCanonical path) :
    (check disk settings path .empty w).answer = s.resolution settings.toDiscovery path := by
  obtain ⟨l, hl, rfl⟩ := hpath.exists_segments
  obtain ⟨R, hstep, hw⟩ := h.inStep
  rw [check, answer_announce, (hstep.resolve rfl _ .empty (hw ⟨0, [], []⟩)).answer]
  exact (resolve_still_settles s settings hl ⟨0, [], []⟩).answer

/-- What a check of a path comes to if nothing is remembered. -/
def Resolve.checkAnew {σ : Type} (disk : Disk σ) (settings : Settings) (around : Surroundings)
    (target : Text) (w : σ) : Except PathFault Resolution :=
  (Path.normalize around target).bind fun path => (check disk settings path .empty w).answer

theorem Resolve.checkAnew_of_ok {σ : Type} (disk : Disk σ) (settings : Settings) {around : Surroundings}
    {target path : Text} (h : Path.normalize around target = .ok path) (w : σ) :
    checkAnew disk settings around target w = (check disk settings path .empty w).answer := by
  rw [checkAnew, h]
  rfl

/-- A path without a normal form ends in its fault, on every disk and under all settings. -/
theorem Resolve.checkAnew_of_error {σ : Type} (disk : Disk σ) (settings : Settings)
    {around : Surroundings} {target : Text} {fault : PathFault}
    (h : Path.normalize around target = .error fault) (w : σ) :
    checkAnew disk settings around target w = .error fault := by
  rw [checkAnew, h]
  rfl

end PathIgnore
