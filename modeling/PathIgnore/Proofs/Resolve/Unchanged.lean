import PathIgnore.Proofs.Cache.Coherent
import PathIgnore.Proofs.Resolve.Effect
import PathIgnore.Proofs.Resolve.Snapshot

/-!
# Resolving while the disk does not change

As long as the disk stands still, a coherent cache makes no difference: everything comes to what one
snapshot says.

1. `Loaded.answer_eq_rulesOf`: a load answers with the rules that the file has.
2. `consulted`: consulting these rules finds the first candidate about which one decides.
3. `scan_tells`: so a scan tells the decision of its plan.
4. `resolve_settles`: and resolving a path settles what the snapshot says of it.

What is told on the way is kept in view as well, since it says at which candidate a rule decides.
-/

namespace PathIgnore

/-! ## Loads -/

/-- Time does not go back. -/
theorem Timeline.effect_now (t : Timeline) : Effect t.disk fun x y => x.2.now ≤ y.2.now where
  refl := fun _ => Nat.le_refl _
  trans := Nat.le_trans
  load := fun quiet path c w => (Cache.loaded t.disk quiet path c w).now_le
  has := fun path _ w => w.now_le_note .has path

variable {t : Timeline} {s : Snapshot}

/-- Three observations of a disk that stands still are of one snapshot. -/
theorem Timeline.seen_of_still {path : Text} {w w₁ w₂ w₃ : Watch} {last : Nat}
    {first second : Except PathFault (Option Fingerprint)} {reading : Except PathFault Reading}
    (hstill : t.StandsStill s w.now last) (hlast : w₃.now ≤ last)
    (hstat : t.disk.stat path w = (first, w₁)) (hread : t.disk.read path w₁ = (reading, w₂))
    (hagain : t.disk.stat path w₂ = (second, w₃)) :
    s.stat path = first ∧ s.read path = reading ∧ s.stat path = second := by
  obtain ⟨hfirst, rfl⟩ := Prod.mk.inj hstat
  obtain ⟨hreading, rfl⟩ := Prod.mk.inj hread
  obtain ⟨hsecond, rfl⟩ := Prod.mk.inj hagain
  have h₁ := w.now_le_note .stat path
  have h₂ := (w.note .stat path).now_le_note .read path
  have h₃ := ((w.note .stat path).note .read path).now_le_note .stat path
  -- All three moments lie between the first and the last.
  rw [hstill _ (Nat.le_refl _) (by omega)] at hfirst
  rw [hstill _ h₁ (by omega)] at hreading
  rw [hstill _ (Nat.le_trans h₁ h₂) (by omega)] at hsecond
  exact ⟨hfirst, hreading, hsecond⟩

/-- **A load from a coherent cache answers with the rules that the file has.** -/
theorem Cache.Loaded.answer_eq_rulesOf {last : Nat} {quiet : Bool} {path : Text} {c : Cache}
    {w : Watch} {l : Traced Watch (Option RuleSet)} (hc : c.CoherentUntil t last)
    (h : Loaded t.disk quiet path c w l) (hlast : l.disk.now ≤ last)
    (hstill : t.StandsStill s w.now last) : l.answer = s.rulesOf path := by
  have hnow := Nat.le_trans h.now_le hlast
  have hhere : t w.now = s := hstill _ (Nat.le_refl _) hnow
  cases h with
  | refused hstat =>
    obtain ⟨hfault, -⟩ := Prod.mk.inj hstat
    rw [hhere] at hfault
    rw [Snapshot.rulesOf, hfault]
  | hit hfind hstat =>
    obtain ⟨hseen, -⟩ := Prod.mk.inj hstat
    obtain ⟨lines, hlines, hrules⟩ := (hc path _ hfind).rules w.now hnow hseen
    rw [hhere] at hseen hlines
    rw [Snapshot.rulesOf, hseen, hlines, hrules]
  | absent hstat =>
    obtain ⟨hnone, -⟩ := Prod.mk.inj hstat
    rw [hhere] at hnone
    rw [Snapshot.rulesOf, hnone]
  | readRefused hstat _ hread | missing hstat _ hread | unreadable hstat _ hread =>
    obtain ⟨hseen, rfl⟩ := Prod.mk.inj hstat
    obtain ⟨hreading, rfl⟩ := Prod.mk.inj hread
    rw [hhere] at hseen
    rw [hstill _ (w.now_le_note _ _) (Nat.le_trans (Watch.now_le_note _ _ _) hlast)] at hreading
    rw [Snapshot.rulesOf, hseen, hreading]
  | againRefused hstat _ hread hagain | vanished hstat _ hread hagain =>
    obtain ⟨hfirst, -, hsecond⟩ := Timeline.seen_of_still hstill hlast hstat hread hagain
    -- On a disk that stands still the two looks at the fingerprint agree.
    cases hfirst.symm.trans hsecond
  | changed hstat _ hread hagain hne =>
    obtain ⟨hfirst, -, hsecond⟩ := Timeline.seen_of_still hstill hlast hstat hread hagain
    cases hfirst.symm.trans hsecond
    exact absurd rfl hne
  | kept hstat _ hread hagain =>
    obtain ⟨hfirst, hlines, -⟩ := Timeline.seen_of_still hstill hlast hstat hread hagain
    rw [Snapshot.rulesOf, hfirst, hlines]

/-- A load tells of no match. -/
theorem Cache.Loaded.matched_not_mem {σ : Type} {d : Disk σ} {quiet : Bool} {path p : Text} {r : Rule}
    {c : Cache} {w : σ} {l : Traced σ (Option RuleSet)} (h : Loaded d quiet path c w l) :
    Notice.matched p r ∉ l.notices := by
  have hdropped : Notice.matched p r ∉ c.dropNotices path := by
    unfold dropNotices
    split <;> simp
  cases h <;> simp [hdropped, badLines]

/-! ## The rules of one file -/

/-- The rule that was found belongs to this decision, and the only match that is told is its own. -/
structure Consulted (decision : Option (Candidate × Rule)) (found : Option Rule × List Notice) :
    Prop where
  rule : found.1 = decision.map (·.2)
  matched : ∀ p r, .matched p r ∈ found.2 → ∃ q, decision = some (q, r) ∧ q.path = p

/-- **Consulting the rules of a file finds the first candidate about which one decides.** -/
theorem consulted (debug : Bool) (file : Text) (rules : RuleSet) : ∀ candidates : List Candidate,
    Consulted (rules.firstOf candidates) (Resolve.consult debug file rules candidates)
  | [] => ⟨rfl, fun _ _ h => absurd h List.not_mem_nil⟩
  | c :: rest => by
    have hrest := consulted debug file rules rest
    rw [Resolve.consult, RuleSet.firstOf, List.findSome?_cons]
    cases hmatch : rules.firstMatch c.path c.isDirectory with
    | none =>
      refine ⟨hrest.rule, fun p r h => hrest.matched p r ?_⟩
      refine (List.mem_append.mp h).resolve_left ?_
      simp
    | some r =>
      refine ⟨rfl, fun p r' h => ?_⟩
      rcases List.mem_append.mp h with hchecking | hmatched
      · simp at hchecking
      · cases List.mem_singleton.mp (Notice.mem_tell.mp hmatched).2
        exact ⟨c, rfl, rfl⟩

/-! ## Scans -/

/-- The scan answers with the rule of this decision, and the only match that it tells is its own. -/
structure Tells {σ : Type} (decision : Except PathFault (Option (Candidate × Rule)))
    (l : Traced σ (Option Rule)) : Prop where
  answer : l.answer = decision.map (·.map (·.2))
  matched : ∀ p r, .matched p r ∈ l.notices → ∃ q, decision = .ok (some (q, r)) ∧ q.path = p

/-- What was told before does not matter if it was no match. -/
theorem Tells.after {σ : Type} {decision : Except PathFault (Option (Candidate × Rule))}
    {l : Traced σ (Option Rule)} (h : Tells decision l) {earlier : List Notice}
    (hno : ∀ p r, .matched p r ∉ earlier) : Tells decision (l.after earlier) :=
  ⟨h.answer, fun p r hmem => h.matched p r ((List.mem_append.mp hmem).resolve_left (hno p r))⟩

namespace Resolve

section Steps

variable {σ : Type} {d : Disk σ} {shown : Diagnostics} {step : Consultation} {rest : List Consultation}
  {c : Cache} {w : σ} {rules : RuleSet}

theorem scan_cons_of_error {fault : PathFault}
    (h : (c.load d shown.quiet step.file w).answer = .error fault) :
    scan d shown (step :: rest) c w = ⟨.error fault, (c.load d shown.quiet step.file w).cache,
      (c.load d shown.quiet step.file w).disk, (c.load d shown.quiet step.file w).notices⟩ := by
  rw [scan, h]

theorem scan_cons_of_none (h : (c.load d shown.quiet step.file w).answer = .ok none) :
    scan d shown (step :: rest) c w =
      (scan d shown rest (c.load d shown.quiet step.file w).cache
          (c.load d shown.quiet step.file w).disk).after
        (c.load d shown.quiet step.file w).notices := by
  rw [scan, h]

theorem scan_cons_of_decided {r : Rule} {notices : List Notice}
    (h : (c.load d shown.quiet step.file w).answer = .ok (some rules))
    (hconsult : consult shown.debugLog step.file rules step.candidates = (some r, notices)) :
    scan d shown (step :: rest) c w = ⟨.ok (some r), (c.load d shown.quiet step.file w).cache,
      (c.load d shown.quiet step.file w).disk,
      (c.load d shown.quiet step.file w).notices ++ notices⟩ := by
  rw [scan, h]
  dsimp only
  rw [hconsult]

theorem scan_cons_of_undecided {notices : List Notice}
    (h : (c.load d shown.quiet step.file w).answer = .ok (some rules))
    (hconsult : consult shown.debugLog step.file rules step.candidates = (none, notices)) :
    scan d shown (step :: rest) c w =
      (scan d shown rest (c.load d shown.quiet step.file w).cache
          (c.load d shown.quiet step.file w).disk).after
        ((c.load d shown.quiet step.file w).notices ++ notices) := by
  rw [scan, h]
  dsimp only
  rw [hconsult]

/-- **After the first file a scan goes on or ends**, and which of the two does not hang on the files
behind it. It ends in a fault only if loading the file does. -/
theorem scan_cons_cases (d : Disk σ) (shown : Diagnostics) (step : Consultation) (c : Cache) (w : σ) :
    let loaded := c.load d shown.quiet step.file w
    (∃ notices, ∀ rest, scan d shown (step :: rest) c w =
      (scan d shown rest loaded.cache loaded.disk).after notices) ∨
    ∃ answer notices, answer ≠ .ok none ∧
      (∀ fault, answer = .error fault → loaded.answer = .error fault) ∧
        ∀ rest, scan d shown (step :: rest) c w =
          ⟨answer, loaded.cache, loaded.disk, notices⟩ := by
  intro loaded
  cases hanswer : loaded.answer with
  | error fault => exact .inr ⟨_, _, by simp, by simp, fun _ => scan_cons_of_error hanswer⟩
  | ok found =>
    cases found with
    | none => exact .inl ⟨_, fun _ => scan_cons_of_none hanswer⟩
    | some rules =>
      cases hconsult : consult shown.debugLog step.file rules step.candidates with
      | mk decided notices =>
        cases decided with
        | none => exact .inl ⟨_, fun _ => scan_cons_of_undecided hanswer hconsult⟩
        | some r =>
          exact .inr ⟨_, _, by simp, by simp, fun _ => scan_cons_of_decided hanswer hconsult⟩

end Steps

/-- What comes after the first load comes after it in time. -/
theorem load_now_le_scan (t : Timeline) (shown : Diagnostics) (step : Consultation)
    (rest : List Consultation) (c : Cache) (w : Watch) :
    (c.load t.disk shown.quiet step.file w).disk.now ≤
      (scan t.disk shown (step :: rest) c w).disk.now := by
  rw [scan]
  split
  · exact Nat.le_refl _
  · exact t.effect_now.scan shown rest _ _
  · split
    · exact Nat.le_refl _
    · exact t.effect_now.scan shown rest _ _

/-- **A scan from a coherent cache tells the decision of its plan.** -/
theorem scan_tells {last : Nat} {shown : Diagnostics} (ht : t.NeverReturnsUntil last) :
    ∀ {plan : List Consultation} {c : Cache} {w : Watch}, c.CoherentUntil t last →
      t.StandsStill s w.now last → (scan t.disk shown plan c w).disk.now ≤ last →
        Tells (s.decision plan) (scan t.disk shown plan c w)
  | [], c, w, _, _, _ => ⟨rfl, fun _ _ h => absurd h List.not_mem_nil⟩
  | step :: rest, c, w, hc, hstill, hlast => by
    have hloaded := Cache.loaded t.disk shown.quiet step.file c w
    have hunmatched : ∀ p r, Notice.matched p r ∉ (c.load t.disk shown.quiet step.file w).notices :=
      fun _ _ => hloaded.matched_not_mem
    have hload := Nat.le_trans (load_now_le_scan t shown step rest c w) hlast
    have hanswer : (c.load t.disk shown.quiet step.file w).answer = s.rulesOf step.file :=
      hloaded.answer_eq_rulesOf hc hload hstill
    have hrest := @scan_tells last shown ht rest _ _ (hloaded.coherent ht hc hload)
      (hstill.later hloaded.now_le)
    rw [Snapshot.decision_cons, Snapshot.consult, ← hanswer]
    cases hfound : (c.load t.disk shown.quiet step.file w).answer with
    | error fault =>
      rw [scan_cons_of_error hfound]
      exact ⟨rfl, fun p r h => absurd h (hunmatched p r)⟩
    | ok rules? =>
      cases rules? with
      | none =>
        rw [scan_cons_of_none hfound] at hlast ⊢
        exact (hrest hlast).after hunmatched
      | some rules =>
        -- The decision fixes both what is found and what is told, so the cases are on the decision.
        have hconsulted := consulted shown.debugLog step.file rules step.candidates
        generalize hconsult : consult shown.debugLog step.file rules step.candidates = found at hconsulted
        obtain ⟨rule?, notices⟩ := found
        rw [Except.map, Option.bind_some]
        generalize rules.firstOf step.candidates = decision at hconsulted ⊢
        obtain ⟨rfl, hmatched⟩ := hconsulted
        cases decision with
        | none =>
          rw [scan_cons_of_undecided hfound hconsult] at hlast ⊢
          refine (hrest hlast).after fun p r h => ?_
          rcases List.mem_append.mp h with hloading | hconsulting
          · exact hunmatched p r hloading
          · obtain ⟨q, hq, -⟩ := hmatched p r hconsulting
            cases hq
        | some decision =>
          rw [scan_cons_of_decided hfound hconsult]
          refine ⟨rfl, fun p r h => ?_⟩
          rcases List.mem_append.mp h with hloading | hconsulting
          · exact absurd hloading (hunmatched p r)
          · obtain ⟨q, hq, hpath⟩ := hmatched p r hconsulting
            exact ⟨q, congrArg Except.ok hq, hpath⟩

/-! ## Resolving -/

/-- The resolution is what the snapshot says of the path, and a match is told only if it decides. -/
structure Settles (s : Snapshot) (d : Discovery) (path : Text) (l : Traced Watch Resolution) : Prop where
  answer : l.answer = s.resolution d path
  matched : ∀ p r, .matched p r ∈ l.notices →
    ¬ s.IgnoresOutside d path ∧ ∃ q, s.decisionFor d path = .ok (some (q, r)) ∧ q.path = p

theorem firstWithMarker_eq_find? {marker : Text} {last : Nat} : ∀ {l : List Text} {w : Watch},
    t.StandsStill s w.now last → (Chain.firstWithMarker t.disk marker l w).2.now ≤ last →
      (Chain.firstWithMarker t.disk marker l w).1 =
        l.find? fun directory => s.has (Path.join directory marker)
  | [], _, _, _ => rfl
  | directory :: rest, w, hstill, hlast => by
    have hmono := t.effect_now.firstWithMarker marker .empty (directory :: rest) w
    have hhere : t w.now = s := hstill _ (Nat.le_refl _) (Nat.le_trans hmono hlast)
    have hhas : t.disk.has (Path.join directory marker) w =
        (s.has (Path.join directory marker), w.note .has (Path.join directory marker)) :=
      Prod.ext (congrArg (fun s : Snapshot => s.has (Path.join directory marker)) hhere) rfl
    rw [Chain.firstWithMarker, hhas] at hlast ⊢
    rw [List.find?_cons]
    cases hthere : s.has (Path.join directory marker) with
    | true => rfl
    | false =>
      rw [hthere] at hlast
      exact firstWithMarker_eq_find? (hstill.later (w.now_le_note _ _)) hlast

theorem within_outside {σ : Type} (disk : Disk σ) {d : Settings} (path : Text) {root : Option Text}
    (houtside : root = none ∧ d.ignoreOutside = true) (c : Cache) (w : σ) :
    within disk d path root c w =
      ⟨.ok ⟨path, root, .outside⟩, c, w, Notice.tell d.debugLog [.boundaryRoot path root]⟩ := by
  rw [within, if_pos houtside]

/-- Under a root that lies above the path, what is consulted is the chain up to it. -/
theorem within_eq_scan {σ : Type} (disk : Disk σ) {d : Settings} {l : List Text} {root : Option Text}
    (hl : ∀ x ∈ l, Path.IsSegment x) (hroot : ∀ r ∈ root, r ∈ Path.ancestors (Path.ofSegments l))
    (hinside : ¬ (root = none ∧ d.ignoreOutside = true)) (c : Cache) (w : σ) :
    within disk d (Path.ofSegments l) root c w =
      ((scan disk d.toDiagnostics (Plan.ofChain d.fileNames.texts (Chain.upTo (Path.ofSegments l) root))
          c w).mapAnswer fun r => ⟨Path.ofSegments l, root, r.elim .noMatch .rule⟩).after
        (Notice.tell d.debugLog [.boundaryRoot (Path.ofSegments l) root] ++
          Notice.tell d.debugLog [.chain (Chain.upTo (Path.ofSegments l) root)]) := by
  rw [within, if_neg hinside, Chain.between_eq_upTo hl hroot]

variable {d : Settings} {c : Cache} {w : Watch} {l : List Text} {last : Nat}

theorem within_settles (ht : t.NeverReturnsUntil last) (hl : ∀ x ∈ l, Path.IsSegment x)
    (hc : c.CoherentUntil t last) (hstill : t.StandsStill s w.now last) {root : Option Text}
    (hroot : s.boundaryRoot d.boundaryMarker (Path.ofSegments l) = root)
    (hlast : (within t.disk d (Path.ofSegments l) root c w).disk.now ≤ last) :
    Settles s d.toDiscovery (Path.ofSegments l) (within t.disk d (Path.ofSegments l) root c w) := by
  subst hroot
  by_cases houtside : s.IgnoresOutside d.toDiscovery (Path.ofSegments l)
  · rw [within_outside t.disk _ houtside]
    refine ⟨?_, fun p r h => ?_⟩
    · rw [Snapshot.resolution, if_pos houtside, houtside.1]
    · simp at h
  · rw [within_eq_scan t.disk hl Snapshot.mem_ancestors_of_boundaryRoot houtside] at hlast ⊢
    obtain ⟨hanswer, hmatched⟩ := scan_tells ht hc hstill hlast
    refine ⟨?_, fun p r h => ⟨houtside, hmatched p r ?_⟩⟩
    · rw [Snapshot.resolution, if_neg houtside, Traced.after, Traced.mapAnswer, hanswer,
        ← Snapshot.decisionFor]
      cases s.decisionFor d.toDiscovery (Path.ofSegments l) with
      | error fault => rfl
      | ok found => cases found <;> rfl
    · refine (List.mem_append.mp h).resolve_left ?_
      simp

/-- **Resolving a path in normal form from a coherent cache settles what one snapshot says of it.** -/
theorem resolve_settles (ht : t.NeverReturnsUntil last) (hl : ∀ x ∈ l, Path.IsSegment x)
    (hc : c.CoherentUntil t last) (hstill : t.StandsStill s w.now last)
    (hlast : (resolve t.disk d (Path.ofSegments l) c w).disk.now ≤ last) :
    Settles s d.toDiscovery (Path.ofSegments l) (resolve t.disk d (Path.ofSegments l) c w) := by
  have hbefore := t.effect_now.firstWithMarker d.boundaryMarker c
    (Path.ancestors (Path.ofSegments l)) w
  have hafter := t.effect_now.within d (Path.ofSegments l)
    (Chain.findBoundaryRoot t.disk d.boundaryMarker (Path.ofSegments l) w).1 c
    (Chain.findBoundaryRoot t.disk d.boundaryMarker (Path.ofSegments l) w).2
  refine within_settles ht hl hc (hstill.later hbefore) ?_ hlast
  exact (firstWithMarker_eq_find? hstill (Nat.le_trans hafter hlast)).symm

/-- So it does on a disk that never changes, with nothing remembered. -/
theorem resolve_still_settles (s : Snapshot) (d : Settings) (hl : ∀ x ∈ l, Path.IsSegment x)
    (w : Watch) :
    Settles s d.toDiscovery (Path.ofSegments l)
      (resolve (Timeline.still s).disk d (Path.ofSegments l) .empty w) :=
  resolve_settles (Timeline.still_neverReturns s _) hl (Cache.coherent_empty _ _)
    (Timeline.still_standsStill s _ _) (Nat.le_refl _)

theorem findBoundaryRoot_still (s : Snapshot) (marker path : Text) (w : Watch) :
    (Chain.findBoundaryRoot (Timeline.still s).disk marker path w).1 = s.boundaryRoot marker path :=
  firstWithMarker_eq_find? (Timeline.still_standsStill s _ _) (Nat.le_refl _)

end Resolve

end PathIgnore
