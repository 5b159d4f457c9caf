import PathIgnore.Proofs.Cache.Load
import PathIgnore.Resolve.Basic

/-!
# Runs that keep silent

A computation that is told to keep silent tells no warning and no error (`Traced.KeepsSilent`), whatever it
meets on the disk: a load (`Cache.Loaded.keepsSilent`), a scan, and resolving (`Resolve.resolve_keepsSilent`).
That a file has changed is told also then, but only as something for debugging.
-/

namespace PathIgnore

variable {σ α : Type}

namespace Traced

/-- Neither a warning nor an error was told. -/
def KeepsSilent (l : Traced σ α) : Prop := ∀ n ∈ l.notices, n.level = .debug

theorem KeepsSilent.after {l : Traced σ α} (h : l.KeepsSilent) {earlier : List Notice}
    (hearlier : ∀ n ∈ earlier, n.level = .debug) : (l.after earlier).KeepsSilent := fun n hn =>
  (List.mem_append.mp hn).elim (hearlier n) (h n)

end Traced

/-! ## Loads -/

namespace Cache

/-- **A quiet load keeps silent**, whatever it sees of the file. -/
theorem Loaded.keepsSilent {d : Disk σ} {path : Text} {c : Cache} {w : σ}
    {l : Traced σ (Option RuleSet)} (h : Loaded d true path c w l) : l.KeepsSilent := by
  have hdropped : ∀ n ∈ c.dropNotices path, n.level = .debug := by
    unfold dropNotices
    split <;> simp [Notice.level]
  cases h with
  | refused | hit => exact fun n hn => absurd hn List.not_mem_nil
  | absent | readRefused | missing => exact hdropped
  | unreadable | againRefused | vanished | kept =>
    intro n hn
    refine hdropped n ((List.mem_append.mp hn).resolve_right ?_)
    simp [badLines]
  | changed =>
    intro n hn
    rcases List.mem_append.mp hn with hn | hn
    · exact hdropped n hn
    · obtain rfl : n = .changedDuringRead path := by simpa [badLines] using hn
      rfl

end Cache

namespace Resolve

/-! ## Scans -/

theorem level_of_mem_consult {debug : Bool} {file : Text} {rules : RuleSet} {n : Notice} :
    ∀ {candidates : List Candidate}, n ∈ (consult debug file rules candidates).2 → n.level = .debug
  | [], h => absurd h List.not_mem_nil
  | c :: rest, h => by
    have hchecking : n ∈ Notice.tell debug [.checking c.path file c.isDirectory] →
        n.level = .debug := by
      rw [Notice.mem_tell, List.mem_singleton]
      rintro ⟨-, rfl⟩
      rfl
    rw [consult] at h
    dsimp only at h
    cases hmatch : rules.firstMatch c.path c.isDirectory with
    | none =>
      rw [hmatch] at h
      exact (List.mem_append.mp h).elim hchecking level_of_mem_consult
    | some r =>
      rw [hmatch] at h
      refine (List.mem_append.mp h).elim hchecking fun hmatched => ?_
      obtain ⟨-, hmatched⟩ := Notice.mem_tell.mp hmatched
      rw [List.mem_singleton.mp hmatched]
      rfl

/-- **A quiet scan keeps silent.** -/
theorem scan_keepsSilent (d : Disk σ) {shown : Diagnostics} (hquiet : shown.quiet = true) :
    ∀ (plan : List Consultation) (c : Cache) (w : σ), (scan d shown plan c w).KeepsSilent
  | [], _, _ => fun n hn => absurd hn List.not_mem_nil
  | step :: rest, c, w => by
    have hload : (c.load d shown.quiet step.file w).KeepsSilent := by
      rw [hquiet]
      exact (Cache.loaded d true step.file c w).keepsSilent
    rw [scan]
    generalize c.load d shown.quiet step.file w = loaded at hload
    have hrest := scan_keepsSilent d hquiet rest loaded.cache loaded.disk
    rcases loaded.answer with fault | _ | rules
    · exact hload
    · exact hrest.after hload
    · have hconsult : ∀ n ∈ (consult shown.debugLog step.file rules step.candidates).2,
          n.level = .debug := fun n => level_of_mem_consult
      dsimp only
      generalize consult shown.debugLog step.file rules step.candidates = found at hconsult
      obtain ⟨_ | r, notices⟩ := found
      · exact hrest.after (List.forall_mem_append.mpr ⟨hload, hconsult⟩)
      · exact List.forall_mem_append.mpr ⟨hload, hconsult⟩

/-! ## Resolving -/

variable {s : Settings}

theorem within_keepsSilent (d : Disk σ) (hquiet : s.quiet = true) (path : Text) (root : Option Text)
    (c : Cache) (w : σ) : (within d s path root c w).KeepsSilent := by
  have hroot : ∀ n ∈ Notice.tell s.debugLog [.boundaryRoot path root], n.level = .debug := by
    simp [Notice.level]
  unfold within
  extract_lets settled
  split
  · exact hroot
  · split
    · next e _ =>
      refine List.forall_mem_append.mpr ⟨hroot, fun n hn => ?_⟩
      simp [hquiet] at hn
    · next chain _ =>
      have hscan : (scan d s.toDiagnostics (Plan.ofChain s.fileNames.texts chain) c w).KeepsSilent :=
        scan_keepsSilent d hquiet _ c w
      have hearlier : ∀ n ∈ settled ++ Notice.tell s.debugLog [.chain chain], n.level = .debug :=
        List.forall_mem_append.mpr ⟨hroot, by simp [Notice.level]⟩
      exact List.forall_mem_append.mpr ⟨hearlier, hscan⟩

/-- **Resolving that is told to be quiet keeps silent.** -/
theorem resolve_keepsSilent (d : Disk σ) (hquiet : s.quiet = true) (path : Text) (c : Cache) (w : σ) :
    (resolve d s path c w).KeepsSilent :=
  within_keepsSilent d hquiet path _ c _

/-- So does the verdict at the end where no verdict is to be told. -/
theorem announce_keepsSilent {shown : Diagnostics} (hignored : shown.warnIgnored = false)
    (hnot : shown.warnNotIgnored = false) {l : Traced σ Resolution} (h : l.KeepsSilent) :
    (announce shown l).KeepsSilent := by
  unfold announce
  split
  · next r _ =>
    refine List.forall_mem_append.mpr ⟨h, fun n hn => ?_⟩
    unfold Resolution.notices at hn
    split at hn <;> simp [hignored, hnot] at hn
  · exact h

end Resolve

end PathIgnore
