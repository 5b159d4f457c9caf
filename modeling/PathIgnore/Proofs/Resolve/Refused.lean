import PathIgnore.Disk.Tree
import PathIgnore.Proofs.Path.Ancestors
import PathIgnore.Proofs.Resolve.Unchanged

/-!
# Paths that are refused

A text with U+0000 in it names no file, and a disk refuses to be asked about it (`Disk.RefusesNul`).
A scan is ended by such a refusal exactly when it comes to a file whose path has U+0000 in it, that is
when no rule of an earlier file decides (`Resolve.answer_scan_eq_error_iff`). Whatever else is wrong with
a file, a scan goes on behind it.

The files that are consulted lie in the directory of the path or above it, so without U+0000 in the
names of the files and in that directory nothing is refused (`Resolve.not_asksForNul`).
-/

namespace PathIgnore

variable {σ : Type} {d : Disk σ}

/-- The disk refuses exactly the paths with U+0000 in them, and those at every look at a fingerprint. -/
structure Disk.RefusesNul (d : Disk σ) : Prop where
  stat : ∀ path w, (d.stat path w).1 = .error .embeddedNul ↔ '\x00' ∈ path
  read : ∀ path w, (d.read path w).1 = .error .embeddedNul → '\x00' ∈ path

namespace Tree

theorem hasNul_iff {path : Text} : hasNul path = true ↔ '\x00' ∈ path := List.contains_iff_mem

/-- A tree refuses them. -/
theorem disk_refusesNul : disk.RefusesNul := by
  have hrefused : ∀ {α : Type} (path : Text) (answer : α),
      (if hasNul path then Except.error PathFault.embeddedNul else .ok answer) = .error .embeddedNul ↔
        '\x00' ∈ path := fun path answer => by
    rw [← hasNul_iff]
    by_cases h : hasNul path = true
    · simp [h]
    · simp [h]
  exact ⟨fun path t => hrefused path (t.stat path), fun path t => (hrefused path (t.readFile path)).mp⟩

end Tree

/-! ## Loads -/

namespace Disk.RefusesNul

theorem not_mem_of_stat_ok (hd : d.RefusesNul) {path : Text} {w w' : σ} {seen : Option Fingerprint}
    (h : d.stat path w = (.ok seen, w')) : '\x00' ∉ path := by
  rw [← hd.stat path w, h]
  simp

theorem mem_of_stat_error (hd : d.RefusesNul) {path : Text} {w w' : σ} {fault : PathFault}
    (h : d.stat path w = (.error fault, w')) : '\x00' ∈ path := by
  cases fault
  rw [← hd.stat path w, h]

theorem mem_of_read_error (hd : d.RefusesNul) {path : Text} {w w' : σ} {fault : PathFault}
    (h : d.read path w = (.error fault, w')) : '\x00' ∈ path := by
  cases fault
  exact hd.read path w (congrArg Prod.fst h)

/-- **A load is refused exactly for the paths with U+0000 in them**, whatever is remembered of them. -/
theorem answer_load_eq_error_iff (hd : d.RefusesNul) (quiet : Bool) (path : Text) (c : Cache) (w : σ) :
    (c.load d quiet path w).answer = .error .embeddedNul ↔ '\x00' ∈ path := by
  have hloaded := Cache.loaded d quiet path c w
  generalize c.load d quiet path w = l at hloaded
  -- Each way starts with a look at the fingerprint, and that alone tells whether the path is refused.
  cases hloaded with
  | @refused fault _ hstat =>
    cases fault
    exact iff_of_true rfl (hd.mem_of_stat_error hstat)
  | readRefused hstat _ hread => exact absurd (hd.mem_of_read_error hread) (hd.not_mem_of_stat_ok hstat)
  | againRefused hstat _ _ hagain =>
    exact absurd (hd.mem_of_stat_error hagain) (hd.not_mem_of_stat_ok hstat)
  | hit _ hstat | absent hstat | missing hstat | unreadable hstat | vanished hstat | changed hstat
  | kept hstat => simp [hd.not_mem_of_stat_ok hstat]

end Disk.RefusesNul

namespace Resolve

/-! ## Scans -/

/-- The scan comes to a file whose path has U+0000 in it: no rule of the files before decides. -/
def AsksForNul (d : Disk σ) (shown : Diagnostics) (plan : List Consultation) (c : Cache) (w : σ) :
    Prop :=
  ∃ earlier step later, plan = earlier ++ step :: later ∧ (scan d shown earlier c w).answer = .ok none ∧
    '\x00' ∈ step.file

variable {shown : Diagnostics} {step : Consultation} {rest : List Consultation} {c c' : Cache} {w w' : σ}

theorem asksForNul_cons_of_mem (h : '\x00' ∈ step.file) : AsksForNul d shown (step :: rest) c w :=
  ⟨[], step, rest, rfl, rfl, h⟩

/-- A file that decides nothing may be left out. -/
theorem asksForNul_cons_iff (hstep : '\x00' ∉ step.file)
    (hscan : ∀ plan, (scan d shown (step :: plan) c w).answer = (scan d shown plan c' w').answer) :
    AsksForNul d shown (step :: rest) c w ↔ AsksForNul d shown rest c' w' := by
  constructor
  · rintro ⟨earlier, refused, later, hplan, hearlier, hnul⟩
    cases earlier with
    | nil =>
      cases hplan
      exact absurd hnul hstep
    | cons first earlier =>
      cases hplan
      exact ⟨earlier, refused, later, rfl, hscan earlier ▸ hearlier, hnul⟩
  · rintro ⟨earlier, refused, later, rfl, hearlier, hnul⟩
    exact ⟨step :: earlier, refused, later, rfl, (hscan earlier).trans hearlier, hnul⟩

/-- Behind a file with which the scan ends, no file is come to. -/
theorem not_asksForNul_cons (hstep : '\x00' ∉ step.file)
    (hends : ∀ plan, (scan d shown (step :: plan) c w).answer ≠ .ok none) :
    ¬ AsksForNul d shown (step :: rest) c w := by
  rintro ⟨earlier, refused, later, hplan, hearlier, hnul⟩
  cases earlier with
  | nil =>
    cases hplan
    exact hstep hnul
  | cons first earlier =>
    cases hplan
    exact hends earlier hearlier

/-- **A scan is refused exactly when it comes to a path with U+0000 in it.** -/
theorem answer_scan_eq_error_iff (hd : d.RefusesNul) (shown : Diagnostics) :
    ∀ (plan : List Consultation) (c : Cache) (w : σ),
      (scan d shown plan c w).answer = .error .embeddedNul ↔ AsksForNul d shown plan c w
  | [], c, w => by
    refine iff_of_false ?_ ?_
    · rintro ⟨⟩
    · rintro ⟨earlier, step, later, hplan, -⟩
      simp at hplan
  | step :: rest, c, w => by
    have hload := hd.answer_load_eq_error_iff shown.quiet step.file c w
    by_cases hstep : '\x00' ∈ step.file
    · rw [scan_cons_of_error (hload.mpr hstep)]
      exact iff_of_true rfl (asksForNul_cons_of_mem hstep)
    · rcases scan_cons_cases d shown step c w with
        ⟨notices, hgoes⟩ | ⟨answer, notices, hdecides, hrefused, hends⟩
      · have hscan := fun plan => congrArg Traced.answer (hgoes plan)
        rw [hscan rest, asksForNul_cons_iff hstep hscan]
        exact answer_scan_eq_error_iff hd shown rest _ _
      · have hscan := fun plan => congrArg Traced.answer (hends plan)
        rw [hscan rest]
        refine iff_of_false (fun h => hstep (hload.mp (hrefused _ h))) ?_
        exact not_asksForNul_cons hstep fun plan => hscan plan ▸ hdecides

/-! ## Resolving -/

/-- What is consulted for a path under a boundary root: nothing outside, and nothing where there is no
chain. -/
def consultations (s : Discovery) (path : Text) (root : Option Text) : List Consultation :=
  if root = none ∧ s.ignoreOutside = true then []
  else
    match Chain.between path root with
    | .error _ => []
    | .ok chain => Plan.ofChain s.fileNames.texts chain

/-- Resolving answers as the scan of the consultations does. -/
theorem exists_answer_within (d : Disk σ) (s : Settings) (path : Text) (root : Option Text) (c : Cache)
    (w : σ) : ∃ resolution : Option Rule → Resolution,
      (within d s path root c w).answer =
        (scan d s.toDiagnostics (consultations s.toDiscovery path root) c w).answer.map resolution := by
  unfold within consultations
  dsimp only
  split
  · exact ⟨fun _ => ⟨path, root, .outside⟩, rfl⟩
  · cases Chain.between path root with
    | error e => exact ⟨fun _ => ⟨path, root, .inconsistent e⟩, rfl⟩
    | ok chain => exact ⟨_, rfl⟩

/-- Resolving leaves cache and disk as the scan of the consultations does. -/
theorem state_within (d : Disk σ) (s : Settings) (path : Text) (root : Option Text) (c : Cache) (w : σ) :
    (within d s path root c w).state =
      (scan d s.toDiagnostics (consultations s.toDiscovery path root) c w).state := by
  unfold within consultations
  dsimp only
  split
  · rfl
  · cases Chain.between path root <;> rfl

/-- The directories of a chain are the one that holds the path and others above it. -/
theorem eq_or_mem_of_mem_tail {path directory : Text} {root : Option Text} {chain : List Text}
    (hchain : Chain.between path root = .ok chain) (h : directory ∈ chain.tail) :
    directory = Path.dirName path ∨ directory ∈ Path.ancestors path := by
  cases root with
  | none =>
    cases hchain
    rw [List.tail_cons, List.mem_singleton] at h
    exact .inl h
  | some root =>
    rw [Chain.between] at hchain
    dsimp only at hchain
    split at hchain
    · cases hchain
    · split at hchain
      · cases hchain
        exact .inr (Chain.mem_of_mem_through h)
      · cases hchain

/-- **What is consulted lies in the directories of the chain, under the names.** -/
theorem exists_level_of_mem_consultations {s : Discovery} {path : Text} {root : Option Text}
    {step : Consultation} (h : step ∈ consultations s path root) :
    ∃ chain, Chain.between path root = .ok chain ∧
      ∃ directory ∈ chain.tail, ∃ name ∈ s.fileNames.texts, step.file = Path.join directory name := by
  unfold consultations at h
  split at h
  · cases h
  · split at h
    · cases h
    · next chain hchain =>
      obtain ⟨directory, hdirectory, hname⟩ := Plan.exists_of_mem_inward h
      rw [List.dropLast_reverse, List.mem_reverse] at hdirectory
      exact ⟨chain, hchain, directory, hdirectory, hname⟩

/-- What is consulted lies in directories that are written with the characters of the path's own. -/
theorem exists_of_mem_consultations {s : Discovery} {path : Text} {root : Option Text}
    {step : Consultation} (h : step ∈ consultations s path root) :
    ∃ directory, (∀ c ∈ directory, c ∈ Path.dirName path ∨ c = '/') ∧
      ∃ name ∈ s.fileNames.texts, step.file = Path.join directory name := by
  obtain ⟨chain, hchain, directory, hdirectory, hname⟩ := exists_level_of_mem_consultations h
  refine ⟨directory, fun c hc => ?_, hname⟩
  rcases eq_or_mem_of_mem_tail hchain hdirectory with rfl | hmem
  · exact .inl hc
  · exact Path.mem_dirName_of_mem_ancestors hmem hc

/-- **Without U+0000 in the names and in the directory of the path, none is come to.** -/
theorem not_asksForNul {s : Discovery} {path : Text} (hnames : ∀ name ∈ s.fileNames.texts, '\x00' ∉ name)
    (hdirectory : '\x00' ∉ Path.dirName path) (shown : Diagnostics) (root : Option Text) (c : Cache)
    (w : σ) : ¬ AsksForNul d shown (consultations s path root) c w := by
  rintro ⟨earlier, step, later, hplan, -, hnul⟩
  have hstep : step ∈ consultations s path root := by
    rw [hplan]
    simp
  obtain ⟨directory, hwritten, name, hname, hfile⟩ := exists_of_mem_consultations hstep
  rw [hfile] at hnul
  rcases Path.mem_of_mem_join hnul with h | h | h
  · rcases hwritten _ h with h | h
    · exact hdirectory h
    · cases h
  · exact hnames name hname h
  · cases h

end Resolve

end PathIgnore
