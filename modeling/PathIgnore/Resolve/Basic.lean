import PathIgnore.Cache.Basic
import PathIgnore.Path.Normalize
import PathIgnore.Resolve.Plan

/-!
# Resolving a path

`Resolve.check` gives the verdict for a path. It settles the boundary root, lists the consultations and
goes through them until a rule decides. A rule that decides about a directory of the chain decides
about the path, and no file further inward is looked at.

Where to look hangs on one half of the settings (`Discovery`). The other half (`Diagnostics`) is asked at
every step for what is to be told of it.
-/

namespace PathIgnore

/-- What resolving a path comes to. -/
inductive Outcome where
  /-- There is no boundary root, and everything outside is ignored. -/
  | outside
  /-- The boundary root does not lie above the path. -/
  | inconsistent (error : ChainError)
  /-- No rule decides. -/
  | noMatch
  /-- This rule decides. -/
  | rule (r : Rule)

/-- What resolving a path comes to, with the path in its normal form and its boundary root. -/
structure Resolution where
  path : Text
  boundaryRoot : Option Text
  outcome : Outcome

namespace Resolution

/-- The rule that decides. -/
def rule? (r : Resolution) : Option Rule :=
  match r.outcome with
  | .rule rule => some rule
  | _ => none

/-- The verdict. -/
def verdict (r : Resolution) : Verdict :=
  match r.outcome with
  | .outside =>
    { path := r.path, ignored := true, reason := Reason.outsideBoundary.word }
  | .inconsistent _ =>
    { path := r.path, reason := Reason.inconsistent.word, boundaryRoot := r.boundaryRoot }
  | .noMatch =>
    { path := r.path, reason := Reason.noMatch.word, boundaryRoot := r.boundaryRoot }
  | .rule rule =>
    { path := r.path, ignored := true, reason := Reason.rule.word, boundaryRoot := r.boundaryRoot,
      rule := some rule.report }

/-- What is told of the verdict. -/
def notices (shown : Diagnostics) (r : Resolution) : List Notice :=
  if r.verdict.ignored then Notice.tell shown.warnIgnored [.ignored r.verdict]
  else Notice.tell shown.warnNotIgnored [.notIgnored r.verdict]

end Resolution

namespace Resolve

/-! ## Consulting -/

/-- The rule of a set that decides about the first candidate about which one does, and what is told on
the way. -/
def consult (debug : Bool) (file : Text) (rules : RuleSet) :
    List Candidate → Option Rule × List Notice
  | [] => (none, [])
  | c :: rest =>
    let checking := Notice.tell debug [.checking c.path file c.isDirectory]
    match rules.firstMatch c.path c.isDirectory with
    | some r => (some r, checking ++ Notice.tell debug [.matched c.path r])
    | none =>
      let (found, notices) := consult debug file rules rest
      (found, checking ++ notices)

/-- Goes through consultations until a rule decides. -/
def scan {σ : Type} (d : Disk σ) (shown : Diagnostics) :
    List Consultation → Cache → σ → Traced σ (Option Rule)
  | [], c, w => ⟨.ok none, c, w, []⟩
  | step :: rest, c, w =>
    let loaded := c.load d shown.quiet step.file w
    match loaded.answer with
    | .error fault => ⟨.error fault, loaded.cache, loaded.disk, loaded.notices⟩
    | .ok none => (scan d shown rest loaded.cache loaded.disk).after loaded.notices
    | .ok (some rules) =>
      match consult shown.debugLog step.file rules step.candidates with
      | (some r, notices) =>
        ⟨.ok (some r), loaded.cache, loaded.disk, loaded.notices ++ notices⟩
      | (none, notices) =>
        (scan d shown rest loaded.cache loaded.disk).after (loaded.notices ++ notices)

/-! ## Resolving -/

/-- Resolves a path in normal form under the boundary root that is given for it. -/
def within {σ : Type} (d : Disk σ) (s : Settings) (path : Text) (root : Option Text) (c : Cache)
    (w : σ) : Traced σ Resolution :=
  let settled := Notice.tell s.debugLog [.boundaryRoot path root]
  if root = none ∧ s.ignoreOutside = true then
    -- No rule bears on the answer, so no file is looked at.
    ⟨.ok ⟨path, root, .outside⟩, c, w, settled⟩
  else
    match Chain.between path root with
    | .error e =>
      ⟨.ok ⟨path, root, .inconsistent e⟩, c, w, settled ++ Notice.tell (!s.quiet) [.inconsistent e]⟩
    | .ok chain =>
      let found := scan d s.toDiagnostics (Plan.ofChain s.fileNames.texts chain) c w
      let outcome (r : Option Rule) : Outcome := r.elim .noMatch .rule
      (found.mapAnswer fun r => ⟨path, root, outcome r⟩).after
        (settled ++ Notice.tell s.debugLog [.chain chain])

/-- Resolves a path in normal form under its own boundary root. -/
def resolve {σ : Type} (d : Disk σ) (s : Settings) (path : Text) (c : Cache) (w : σ) :
    Traced σ Resolution :=
  let (root, w) := Chain.findBoundaryRoot d s.boundaryMarker path w
  within d s path root c w

/-- Tells the verdict at the end, if it is asked for. -/
def announce {σ : Type} (shown : Diagnostics) (t : Traced σ Resolution) : Traced σ Resolution :=
  match t.answer with
  | .ok r => { t with notices := t.notices ++ r.notices shown }
  | .error _ => t

/-- Resolves a path in normal form and tells the verdict. -/
def check {σ : Type} (d : Disk σ) (s : Settings) (path : Text) (c : Cache) (w : σ) :
    Traced σ Resolution :=
  announce s.toDiagnostics (resolve d s path c w)

end Resolve

end PathIgnore
