import Mathlib.Data.List.Forall2
import PathIgnore.Disk.Flat
import PathIgnore.Proofs.Resolve.InStep
import PathIgnore.Proofs.Resolve.Silent
import PathIgnore.Session.Basic

/-!
# Reports decide nothing

A session is taken along a list of happenings: requests are answered, and the disk is changed from
outside in between (`Session.exchanges`).

Two sessions that differ in nothing but what is to be reported stay so with every happening, and give the
same answers (`Session.UpToReports.exchanges`): each of their loads and queries is a pair of runs in step,
whatever they tell. And a query in a session that is told to keep silent shows neither a warning nor an error,
whatever it meets on the disk (`Session.level_of_query`), also through a cache that is not silent by itself.
-/

namespace PathIgnore

variable {σ α : Type}

/-! ## Sessions up to what they report -/

/-- Caches of one kind, silent or not. -/
inductive CacheChoice.UpToReports : CacheChoice → CacheChoice → Prop
  | own (quiet quiet' : Bool) : UpToReports (.own quiet) (.own quiet')
  | shared : UpToReports .shared .shared

/-- Requests that ask for the same, whatever they want reported. -/
inductive Request.UpToReports : Request → Request → Prop
  | same (request : Request) : UpToReports request request
  | load (path : Text) (quiet quiet' : Option Bool) : UpToReports (.load path quiet) (.load path quiet')
  | configure {s s' : Settings} (h : s.toDiscovery = s'.toDiscovery) :
      UpToReports (.configure s) (.configure s')

/-- Answers that say the same. Only an answer that gives the settings back may differ, in what is to be
reported. -/
inductive Answer.UpToReports : Answer → Answer → Prop
  | same (answer : Answer) : UpToReports answer answer
  | settings {s s' : Settings} (h : s.toDiscovery = s'.toDiscovery) :
      UpToReports (.settings s) (.settings s')

/-- Sessions that differ at most in what they report. Their caches are equal, counts included. -/
structure Session.UpToReports (s s' : Session σ) : Prop where
  disk : s.disk = s'.disk
  discovery : s.settings.toDiscovery = s'.settings.toDiscovery
  choice : s.choice.UpToReports s'.choice
  ownCache : s.ownCache = s'.ownCache
  sharedCache : s.sharedCache = s'.sharedCache

/-- Responses that say the same and leave such sessions; the notices are left open. -/
structure Response.UpToReports (r r' : Response σ) : Prop where
  answer : r.answer.UpToReports r'.answer
  session : r.session.UpToReports r'.session

/-! ## Happenings -/

/-- What happens to a session: a request, or a change of the disk from outside. -/
inductive Happening (σ : Type) where
  | ask (request : Request)
  | change (f : σ → σ)

/-- The same happening, whatever is to be reported. -/
inductive Happening.UpToReports : Happening σ → Happening σ → Prop
  | ask {request request' : Request} (h : request.UpToReports request') :
      UpToReports (.ask request) (.ask request')
  | change (f : σ → σ) : UpToReports (.change f) (.change f)

/-- What happened to which session, and what came of it. -/
structure Exchange (σ : Type) where
  before : Session σ
  happening : Happening σ
  response : Response σ

/-- Exchanges of such sessions that are answered the same. -/
structure Exchange.UpToReports (e e' : Exchange σ) : Prop where
  before : e.before.UpToReports e'.before
  response : e.response.UpToReports e'.response

/-- What comes of a happening. -/
def Session.exchange (d : Disk σ) (around : Surroundings) (s : Session σ) (h : Happening σ) :
    Exchange σ :=
  match h with
  | .ask request => ⟨s, h, s.step d around request⟩
  | .change f => ⟨s, h, .done, [], s.onDisk f⟩

/-- What comes of happenings, one after the other. -/
def Session.exchanges (d : Disk σ) (around : Surroundings) :
    List (Happening σ) → Session σ → List (Exchange σ)
  | [], _ => []
  | h :: rest, s =>
    let e := s.exchange d around h
    e :: exchanges d around rest e.response.session

/-- The request asks for what resolving a path comes to. -/
def Request.IsQuery : Request → Prop
  | check .. | resolve .. | isIgnored .. | matchPath _ | shouldIgnore _ => True
  | _ => False

/-- Neither trouble nor verdicts are to be reported. -/
structure Diagnostics.IsSilent (d : Diagnostics) : Prop where
  quiet : d.quiet = true
  warnIgnored : d.warnIgnored = false
  warnNotIgnored : d.warnNotIgnored = false

/-- A query in a session that is to keep silent. -/
def Exchange.IsSilentQuery (e : Exchange σ) : Prop :=
  (∃ request, e.happening = .ask request ∧ request.IsQuery) ∧ e.before.settings.toDiagnostics.IsSilent

namespace Session

variable {d : Disk σ} {around : Surroundings} {s s' : Session σ}

/-! ## Answers -/

namespace UpToReports

theorem cache (h : s.UpToReports s') : s.cache = s'.cache := by
  obtain ⟨disk, settings, choice, own, shared⟩ := s
  obtain ⟨disk', settings', choice', own', shared'⟩ := s'
  obtain ⟨-, -, hchoice, hown, hshared⟩ := h
  cases hchoice with
  | own => exact hown
  | shared => exact hshared

theorem withCache (h : s.UpToReports s') (c : Cache) : (s.withCache c).UpToReports (s'.withCache c) := by
  obtain ⟨disk, settings, choice, own, shared⟩ := s
  obtain ⟨disk', settings', choice', own', shared'⟩ := s'
  obtain ⟨hdisk, hdiscovery, hchoice, hown, hshared⟩ := h
  cases hchoice with
  | own quiet quiet' => exact ⟨hdisk, hdiscovery, .own quiet quiet', rfl, hshared⟩
  | shared => exact ⟨hdisk, hdiscovery, .shared, hown, rfl⟩

theorem onDisk (h : s.UpToReports s') (f : σ → σ) : (s.onDisk f).UpToReports (s'.onDisk f) :=
  ⟨congrArg f h.disk, h.discovery, h.choice, h.ownCache, h.sharedCache⟩

/-- Computations that came to the same give responses that say the same. -/
theorem respond (h : s.UpToReports s') (f : α → Answer) {l l' : Traced σ α} (hl : l.Alike Eq l') :
    (s.respond f l).UpToReports (s'.respond f l') := by
  obtain ⟨answer, cache, disk, notices⟩ := l
  obtain ⟨rfl, rfl, rfl⟩ := hl
  obtain ⟨-, hdiscovery, hchoice, hown, hshared⟩ := h.withCache l'.cache
  exact ⟨.same _, rfl, hdiscovery, hchoice, hown, hshared⟩

theorem respondShared (h : s.UpToReports s') (f : α → Answer) {l l' : Traced σ α}
    (hl : l.Alike Eq l') : (s.respondShared f l).UpToReports (s'.respondShared f l') := by
  obtain ⟨answer, cache, disk, notices⟩ := l
  obtain ⟨rfl, rfl, rfl⟩ := hl
  exact ⟨.same _, rfl, h.discovery, h.choice, h.ownCache, rfl⟩

theorem resolution (h : s.UpToReports s') (path : Text) (root : Option (Option Text)) (c : Cache) :
    (s.resolution d around path root c).Alike Eq (s'.resolution d around path root c) := by
  unfold Session.resolution resolutionOf
  rw [h.disk]
  cases Path.normalize around path with
  | error fault => exact ⟨rfl, rfl, rfl⟩
  | ok path =>
    cases root with
    | none => exact d.inStep_self.resolve h.discovery path c rfl
    | some root => exact d.inStep_self.within h.discovery path root c rfl

theorem checked (h : s.UpToReports s') (path : Text) (root : Option (Option Text)) (c : Cache) :
    (s.checked d around path root c).Alike Eq (s'.checked d around path root c) :=
  (h.resolution path root c).announce _ _

theorem step_load (h : s.UpToReports s') (path : Text) (quiet quiet' : Option Bool) :
    (s.step d around (.load path quiet)).UpToReports (s'.step d around (.load path quiet')) := by
  unfold Session.step
  dsimp only
  rw [h.cache, h.disk]
  exact h.respond _ (d.inStep_self.load _ _ path s'.cache rfl)

/-- **A request is answered the same whatever is reported.** -/
theorem step (h : s.UpToReports s') {request request' : Request} (hr : request.UpToReports request') :
    (s.step d around request).UpToReports (s'.step d around request') := by
  cases hr with
  | load path quiet quiet' => exact h.step_load path quiet quiet'
  | configure hdiscovery =>
    exact ⟨.settings hdiscovery, h.disk, hdiscovery, h.choice, h.ownCache, h.sharedCache⟩
  | same =>
    cases request with
    | load path quiet => exact h.step_load path quiet quiet
    | invalidate path =>
      refine ⟨.same _, ?_⟩
      show (s.withCache (s.cache.invalidate path)).UpToReports _
      rw [h.cache]
      exact h.withCache _
    | contains path =>
      unfold Session.step
      dsimp only
      rw [h.cache]
      exact ⟨.same _, h⟩
    | statistics =>
      unfold Session.step
      dsimp only
      rw [h.cache]
      exact ⟨.same _, h⟩
    | configure settings =>
      exact ⟨.same _, h.disk, rfl, h.choice, h.ownCache, h.sharedCache⟩
    | findBoundaryRoot path =>
      have hmarker : s.settings.boundaryMarker = s'.settings.boundaryMarker :=
        congrArg Discovery.boundaryMarker h.discovery
      unfold Session.step
      dsimp only
      rw [h.disk, hmarker]
      exact ⟨.same _, rfl, h.discovery, h.choice, h.ownCache, h.sharedCache⟩
    | buildChain path root =>
      unfold Session.step
      dsimp only
      cases Chain.between path root with
      | ok chain => exact ⟨.same _, h⟩
      | error e => exact ⟨.same _, h⟩
    | check path root => exact h.respond _ (h.cache ▸ h.checked path root _)
    | isIgnored path root => exact h.respond _ (h.cache ▸ h.checked path root _)
    | resolve path root => exact h.respond _ (h.cache ▸ h.resolution path root _)
    | matchPath path => exact h.respondShared _ (h.sharedCache ▸ h.resolution path none _)
    | shouldIgnore path => exact h.respondShared _ (h.sharedCache ▸ h.checked path none _)

theorem exchange (h : s.UpToReports s') {e e' : Happening σ} (he : e.UpToReports e') :
    (s.exchange d around e).UpToReports (s'.exchange d around e') := by
  cases he with
  | ask hr => exact ⟨h, h.step hr⟩
  | change f => exact ⟨h, .same _, h.onDisk f⟩

/-- **Along any happenings, sessions that differ in what they report give the same answers and stay the
same up to that.** -/
theorem exchanges {es es' : List (Happening σ)} (hes : List.Forall₂ Happening.UpToReports es es')
    (h : s.UpToReports s') :
    List.Forall₂ Exchange.UpToReports (s.exchanges d around es) (s'.exchanges d around es') := by
  induction hes generalizing s s' with
  | nil => exact .nil
  | @cons e e' _ _ he _ ih =>
    have hfirst : (s.exchange d around e).UpToReports (s'.exchange d around e') := h.exchange he
    exact .cons hfirst (ih hfirst.response.session)

end UpToReports

/-! ## Notices -/

theorem resolution_keepsSilent (hquiet : s.settings.quiet = true) (path : Text)
    (root : Option (Option Text)) (c : Cache) : (s.resolution d around path root c).KeepsSilent := by
  unfold resolution resolutionOf
  cases Path.normalize around path with
  | error fault => exact fun n hn => absurd hn List.not_mem_nil
  | ok path =>
    cases root with
    | none => exact Resolve.resolve_keepsSilent d hquiet path c _
    | some root => exact Resolve.within_keepsSilent d hquiet path root c _

theorem checked_keepsSilent (hs : s.settings.toDiagnostics.IsSilent) (path : Text)
    (root : Option (Option Text)) (c : Cache) : (s.checked d around path root c).KeepsSilent :=
  Resolve.announce_keepsSilent hs.warnIgnored hs.warnNotIgnored
    (resolution_keepsSilent hs.quiet path root c)

/-- **A query that is to keep silent shows no warning and no error.** -/
theorem level_of_query {request : Request} (hq : request.IsQuery)
    (hs : s.settings.toDiagnostics.IsSilent) {n : Notice}
    (hn : n ∈ (s.step d around request).notices) : n.level = .debug := by
  cases request with
  | check path root => exact checked_keepsSilent hs path root _ n hn
  | resolve path root => exact resolution_keepsSilent hs.quiet path root _ n hn
  | isIgnored path root => exact checked_keepsSilent hs path root _ n hn
  | matchPath path => exact resolution_keepsSilent hs.quiet path none _ n hn
  | shouldIgnore path => exact checked_keepsSilent hs path none _ n hn
  | _ => cases hq

theorem level_of_isSilentQuery {es : List (Happening σ)} {e : Exchange σ}
    (he : e ∈ s.exchanges d around es) (hs : e.IsSilentQuery) :
    ∀ n ∈ e.response.notices, n.level = .debug := by
  induction es generalizing s with
  | nil => cases he
  | cons first rest ih =>
    rcases List.mem_cons.mp he with rfl | he
    · obtain ⟨⟨request, hrequest, hq⟩, hsilent⟩ := hs
      cases first with
      | change f => cases hrequest
      | ask asked =>
        cases hrequest
        intro n hn
        exact level_of_query hq hsilent hn
    · exact ih he

/-! ## Whole sessions -/

/-- **Reports decide nothing, and silence is silent.** Along the same happenings, sessions that differ
only in what they report give the same answers and keep equal caches; and where one of their queries is
to keep silent, it shows neither a warning nor an error. -/
theorem exchanges_upToReports (h : s.UpToReports s') {es es' : List (Happening σ)}
    (hes : List.Forall₂ Happening.UpToReports es es') :
    List.Forall₂ Exchange.UpToReports (s.exchanges d around es) (s'.exchanges d around es') ∧
      ∀ e ∈ s.exchanges d around es, e.IsSilentQuery → ∀ n ∈ e.response.notices, n.level = .debug :=
  ⟨h.exchanges hes, fun _ he hs => level_of_isSilentQuery he hs⟩

/-- A file with a line that does not compile is loaded and then consulted, through a cache that is not
silent. One session is told to keep silent, and the other reports everything, the bad line included. -/
theorem exchanges_upToReports_bad_line :
    let around := Surroundings.atRoot
    let path := "/repo/a".toList
    let file := "/repo/.aiignore".toList
    let silent : Settings := { Settings.default with quiet := true }
    let loud : Settings := { Settings.default with
      debugLog := true, warnIgnored := true, warnNotIgnored := true, logLevel := "DEBUG".toList,
      logJson := false }
    let s : Session Flat := start .empty silent (.own false)
    let s' : Session Flat := start .empty loud (.own true)
    let written : Happening Flat := .change (Flat.write file "[\na\n".toUTF8 id)
    let es := [written, .ask (.load file none), .ask (.check path none)]
    let es' := [written, .ask (.load file (some false)), .ask (.check path none)]
    (s.UpToReports s' ∧ List.Forall₂ Happening.UpToReports es es' ∧
      ∃ e ∈ s.exchanges Flat.disk around es, e.IsSilentQuery) ∧
    List.Forall₂ Exchange.UpToReports (s.exchanges Flat.disk around es)
      (s'.exchanges Flat.disk around es') ∧
    (∀ e ∈ s.exchanges Flat.disk around es, e.IsSilentQuery → ∀ n ∈ e.response.notices,
      n.level = .debug) ∧
    ∃ e ∈ s'.exchanges Flat.disk around es', ∃ n ∈ e.response.notices, n.level = .error := by
  intro around path file silent loud s s' written es es'
  have h : s.UpToReports s' := ⟨rfl, rfl, .own false true, rfl, rfl⟩
  have hes : List.Forall₂ Happening.UpToReports es es' :=
    .cons (.change _) (.cons (.ask (.load file none (some false))) (.cons (.ask (.same _)) .nil))
  have hsilent : ∃ e ∈ s.exchanges Flat.disk around es, e.IsSilentQuery :=
    ⟨_, .tail _ (.tail _ (.head _)), ⟨_, rfl, trivial⟩, rfl, rfl, rfl⟩
  have hboth : List.Forall₂ Exchange.UpToReports (s.exchanges Flat.disk around es)
      (s'.exchanges Flat.disk around es') ∧ _ := exchanges_upToReports h hes
  obtain ⟨hsame, hquiet⟩ := hboth
  refine ⟨⟨h, hes, hsilent⟩, hsame, hquiet, ?_⟩
  have htold : (s'.exchanges Flat.disk around es').any
      (fun e => e.response.notices.any (·.level == .error)) = true := by decide +kernel
  simpa [List.any_eq_true] using htold

end Session

end PathIgnore
