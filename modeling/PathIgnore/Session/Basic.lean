import PathIgnore.Resolve.Basic

/-!
# Sessions

A session is a stretch of work with one disk: settings, a cache for the session's own queries, and the
cache that all casual queries share. `Session.step` answers one request and leaves the session for the
next. A load is as silent as its request says or else as its cache is; queries are as silent as the
settings say, through any cache.

Between two requests the disk may be changed in any way; that is `Session.onDisk`.
-/

namespace PathIgnore

/-- Which cache serves the queries of a session, and whether loading through it is silent. -/
inductive CacheChoice where
  /-- A cache of the session's own. -/
  | own (quiet : Bool)
  /-- The shared cache, which is not silent. -/
  | shared
  deriving DecidableEq, Repr

/-- Whether loads are silent where the request does not say. -/
def CacheChoice.quiet : CacheChoice → Bool
  | own quiet => quiet
  | shared => false

/-- A stretch of work with one disk. -/
structure Session (σ : Type) where
  disk : σ
  settings : Settings
  choice : CacheChoice
  ownCache : Cache
  sharedCache : Cache

/-- Something that is asked of a session. The boundary root of a query may be given instead of looked
for. -/
inductive Request where
  | load (path : Text) (quiet : Option Bool)
  | invalidate (path : Option Text)
  | contains (path : Text)
  | statistics
  | configure (settings : Settings)
  | findBoundaryRoot (path : Text)
  | buildChain (path : Text) (root : Option Text)
  | check (path : Text) (root : Option (Option Text))
  | resolve (path : Text) (root : Option (Option Text))
  | isIgnored (path : Text) (root : Option (Option Text))
  | matchPath (path : Text)
  | shouldIgnore (path : Text)

/-- The counts of a cache. -/
structure Statistics where
  entries : Nat
  hits : Nat
  misses : Nat
  reloads : Nat
  deriving DecidableEq, Repr

/-- What a request is answered with. -/
inductive Answer where
  | done
  | truth (b : Bool)
  | rules (rules : Option RuleSet)
  | statistics (s : Statistics)
  | settings (s : Settings)
  | root (root : Option Text)
  | chain (chain : List Text)
  | verdict (v : Verdict)
  | rule (r : Option Rule)
  | chainError (e : ChainError)
  | pathFault (e : PathFault)

/-- The answer to a request, the notices that are shown, and the session afterwards. -/
structure Response (σ : Type) where
  answer : Answer
  notices : List Notice
  session : Session σ

/-- The counts of the cache. -/
def Cache.statistics (c : Cache) : Statistics := ⟨c.size, c.hits, c.misses, c.reloads⟩

namespace Session

/-- A new session: both caches are empty. -/
def start {σ : Type} (disk : σ) (settings : Settings) (choice : CacheChoice) : Session σ :=
  ⟨disk, settings, choice, .empty, .empty⟩

/-- The cache that serves the session's queries. -/
def cache {σ : Type} (s : Session σ) : Cache :=
  match s.choice with
  | .own _ => s.ownCache
  | .shared => s.sharedCache

/-- Replaces the cache that serves the session's queries. -/
def withCache {σ : Type} (s : Session σ) (c : Cache) : Session σ :=
  match s.choice with
  | .own _ => { s with ownCache := c }
  | .shared => { s with sharedCache := c }

/-- Changes the disk. -/
def onDisk {σ : Type} (f : σ → σ) (s : Session σ) : Session σ := { s with disk := f s.disk }

/-- The answer that a computation leaves. -/
def answerOf {α : Type} (f : α → Answer) : Except PathFault α → Answer
  | .ok a => f a
  | .error e => .pathFault e

theorem answerOf_rules_iff {x : Except PathFault (Option RuleSet)} {rules? : Option RuleSet} :
    answerOf .rules x = .rules rules? ↔ x = .ok rules? := by
  cases x <;> simp [answerOf]

/-- The response that a computation through the session's cache gives. -/
def respond {σ α : Type} (s : Session σ) (f : α → Answer) (t : Traced σ α) : Response σ :=
  ⟨answerOf f t.answer, t.notices, { s.withCache t.cache with disk := t.disk }⟩

/-- The response that a computation through the shared cache gives. -/
def respondShared {σ α : Type} (s : Session σ) (f : α → Answer) (t : Traced σ α) : Response σ :=
  ⟨answerOf f t.answer, t.notices, { s with sharedCache := t.cache, disk := t.disk }⟩

/-- Resolves a path in normal form, under a given boundary root or its own. -/
def resolutionOf {σ : Type} (d : Disk σ) (s : Session σ) (path : Text) (root : Option (Option Text))
    (c : Cache) : Traced σ Resolution :=
  match root with
  | none => Resolve.resolve d s.settings path c s.disk
  | some root => Resolve.within d s.settings path root c s.disk

/-- Resolves a path, under a given boundary root or its own. Without a normal form of it nothing is looked
at. -/
def resolution {σ : Type} (d : Disk σ) (around : Surroundings) (s : Session σ) (path : Text)
    (root : Option (Option Text)) (c : Cache) : Traced σ Resolution :=
  match Path.normalize around path with
  | .ok path => s.resolutionOf d path root c
  | .error fault => ⟨.error fault, c, s.disk, []⟩

theorem resolution_of_ok {σ : Type} (d : Disk σ) {around : Surroundings} (s : Session σ)
    {path normal : Text} (h : Path.normalize around path = .ok normal) (root : Option (Option Text))
    (c : Cache) : s.resolution d around path root c = s.resolutionOf d normal root c := by
  rw [resolution, h]

theorem resolution_of_error {σ : Type} (d : Disk σ) {around : Surroundings} (s : Session σ)
    {path : Text} {fault : PathFault} (h : Path.normalize around path = .error fault)
    (root : Option (Option Text)) (c : Cache) :
    s.resolution d around path root c = ⟨.error fault, c, s.disk, []⟩ := by
  rw [resolution, h]

/-- Resolves a path and tells the verdict. -/
def checked {σ : Type} (d : Disk σ) (around : Surroundings) (s : Session σ) (path : Text)
    (root : Option (Option Text)) (c : Cache) : Traced σ Resolution :=
  Resolve.announce s.settings.toDiagnostics (s.resolution d around path root c)

/-- Answers one request. -/
def step {σ : Type} (d : Disk σ) (around : Surroundings) (request : Request) (s : Session σ) :
    Response σ :=
  match request with
  | .load path quiet =>
    s.respond .rules (s.cache.load d (quiet.getD s.choice.quiet) path s.disk)
  | .invalidate path => ⟨.done, [], s.withCache (s.cache.invalidate path)⟩
  | .contains path => ⟨.truth (s.cache.contains path), [], s⟩
  | .statistics => ⟨.statistics s.cache.statistics, [], s⟩
  | .configure settings => ⟨.settings settings, [], { s with settings }⟩
  | .findBoundaryRoot path =>
    let (root, disk) := Chain.findBoundaryRoot d s.settings.boundaryMarker path s.disk
    ⟨.root root, [], { s with disk }⟩
  | .buildChain path root =>
    match Chain.between path root with
    | .ok chain => ⟨.chain chain, [], s⟩
    | .error e => ⟨.chainError e, [], s⟩
  | .check path root =>
    s.respond (fun r => .verdict r.verdict) (s.checked d around path root s.cache)
  | .isIgnored path root =>
    s.respond (fun r => .truth r.verdict.ignored) (s.checked d around path root s.cache)
  | .resolve path root =>
    s.respond (fun r => .rule r.rule?) (s.resolution d around path root s.cache)
  | .matchPath path =>
    s.respondShared (fun r => .rule r.rule?) (s.resolution d around path none s.sharedCache)
  | .shouldIgnore path =>
    s.respondShared (fun r => .truth r.verdict.ignored) (s.checked d around path none s.sharedCache)

end Session

end PathIgnore
