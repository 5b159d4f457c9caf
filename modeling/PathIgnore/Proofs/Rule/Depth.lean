import PathIgnore.Proofs.Glob.Search
import PathIgnore.Proofs.Path.Hierarchy
import PathIgnore.Proofs.Rule.Lines
import PathIgnore.Proofs.Rule.Spelling

/-!
# How deep a rule reaches

A slash is taken by a separator, by a slash in a literal, and by double stars, but by nothing else. So the
tokens of a pattern without double stars say how many slashes it takes (`count_slash_of_accepts`), and a
rule that is held against the path as seen from its file applies that many levels beneath it
(`depth_of_appliesTo`). A rule for last segments applies on all levels alike.
-/

namespace PathIgnore

namespace Glob

/-- How many slashes the token takes; of the double stars, how many it takes at least. -/
def Token.slashes : Token → Nat
  | literal t => t.count '/'
  | separator => 1
  | star | globstar | globstarSlash | anyChar | bracket .. => 0

/-- How many levels the tokens reach down: one, and one for each separator and each slash in a literal. -/
def levels (ts : List Token) : Nat := 1 + (ts.map Token.slashes).sum

theorem Token.count_slash_of_mem_language {t : Token} {s : Text}
    (hstar : t ≠ .globstar ∧ t ≠ .globstarSlash) (h : s ∈ t.language) : s.count '/' = t.slashes := by
  cases t with
  | literal w => rw [show s = w from h, slashes]
  | separator => rw [show s = ['/'] from h]; rfl
  | star => exact List.count_eq_zero.mpr h
  | anyChar =>
    obtain ⟨c, hc, rfl⟩ := h
    exact List.count_eq_zero.mpr (by simpa using hc.symm)
  | bracket _ set =>
    obtain ⟨c, hc, rfl⟩ := h
    exact List.count_eq_zero.mpr (by simpa using hc.1.symm)
  | globstar => exact absurd rfl hstar.1
  | globstarSlash => exact absurd rfl hstar.2

theorem count_slash_of_mem_language {ts : List Token} {s : Text}
    (hstar : ∀ t ∈ ts, t ≠ .globstar ∧ t ≠ .globstarSlash) (h : s ∈ language ts) :
    s.count '/' = (ts.map Token.slashes).sum := by
  induction ts generalizing s with
  | nil => rw [show s = [] from h]; rfl
  | cons t ts ih =>
    rw [language, List.map_cons, List.prod_cons, Language.mem_mul] at h
    obtain ⟨u, hu, v, hv, rfl⟩ := h
    rw [List.count_append, Token.count_slash_of_mem_language (hstar t List.mem_cons_self) hu,
      ih (fun x hx => hstar x (List.mem_cons_of_mem _ hx)) hv, List.map_cons, List.sum_cons]

/-- **Without double stars, whatever a pattern takes has the slashes that its tokens ask for.** -/
theorem count_slash_of_accepts {g : Glob} {s : Text}
    (hstar : ∀ t ∈ g.tokens, t ≠ .globstar ∧ t ≠ .globstarSlash) (h : g.accepts s = true) :
    s.count '/' + 1 = levels g.tokens := by
  rw [levels, Nat.add_comm,
    count_slash_of_mem_language hstar ((accepts_iff_mem_language g s).mp h)]

end Glob

/-! ## Levels beneath a directory -/

namespace Path

variable {a p x : Text}

theorem count_slash_stem {l : List Text} (hl : ∀ s ∈ l, IsSegment s) : (stem l).count '/' = l.length := by
  induction l with
  | nil => rfl
  | cons s l ih =>
    rw [stem, List.count_append, List.count_cons_self, ih fun x hx => hl x (List.mem_cons_of_mem _ hx),
      List.count_eq_zero.mpr (hl s List.mem_cons_self).2, List.length_cons]

/-- **A path lies one level beneath an ancestor, and one more for each slash on the way down.** -/
theorem depth_of_relative? (ha : IsCanonical a) (hp : IsCanonical p) (h : IsAncestor a p)
    (hx : relative? a p = some x) : depth p = depth a + (x.count '/' + 1) := by
  obtain ⟨l, hl, rfl⟩ := isCanonical_iff.mp ha
  obtain ⟨m, hne, hplain, rfl⟩ := h.exists_append hl hp
  have hsegments : ∀ s ∈ m ++ l, IsSegment s := fun s hs => (hplain s hs).1
  obtain ⟨hm, hlsegments⟩ := List.forall_mem_append.mp hsegments
  rw [relative?_ofSegments hm hlsegments hne, Option.some.injEq] at hx
  have hcount := count_slash_stem hm
  rw [stem_eq_cons_tail hne, List.count_cons_self, hx] at hcount
  rw [depth_ofSegments hsegments, depth_ofSegments hlsegments, hcount, List.length_append,
    Nat.add_comm]

/-- What lies one level beneath a directory lies in it. -/
theorem dirName_of_depth (ha : IsCanonical a) (hp : IsCanonical p) (h : IsAncestor a p)
    (hdepth : depth p = depth a + 1) : dirName p = a := by
  obtain ⟨l, hl, rfl⟩ := isCanonical_iff.mp ha
  obtain ⟨m, -, hplain, rfl⟩ := h.exists_append hl hp
  have hsegments : ∀ s ∈ m ++ l, IsSegment s := fun s hs => (hplain s hs).1
  rw [depth_ofSegments hsegments, depth_ofSegments fun s hs => (hl s hs).1, List.length_append] at hdepth
  obtain ⟨s, rfl⟩ : ∃ s, m = [s] := List.length_eq_one_iff.mp (by omega)
  exact dirName_ofSegments_cons hsegments

end Path

namespace Rule

variable {source raw path : Text} {line : Int} {isDirectory : Bool} {r : Rule}

theorem exists_candidate_of_appliesTo (h : r.appliesTo path isDirectory = true) :
    ∃ x, r.candidate? path = some x ∧ r.glob.accepts x = true := by
  rw [appliesTo, Bool.and_eq_true, Option.any_eq_true] at h
  exact h.2

/-- **A rule without double stars that is held against the path as seen from its file applies as many
levels beneath its directory as its tokens reach.** -/
theorem depth_eq_of_appliesTo (hdirectory : Path.IsCanonical r.baseDir) (hpath : Path.IsCanonical path)
    (hbeneath : Path.IsAncestor r.baseDir path) (hbasename : r.basenameOnly = false)
    (hstar : ∀ t ∈ r.glob.tokens, t ≠ .globstar ∧ t ≠ .globstarSlash)
    (h : r.appliesTo path isDirectory = true) :
    Path.depth path = Path.depth r.baseDir + Glob.levels r.glob.tokens := by
  obtain ⟨x, hcandidate, haccepts⟩ := exists_candidate_of_appliesTo h
  rw [candidate?, if_neg (Bool.eq_false_iff.mp hbasename)] at hcandidate
  rw [Path.depth_of_relative? hdirectory hpath hbeneath hcandidate,
    Glob.count_slash_of_accepts hstar haccepts]

/-- A rule for last segments looks at nothing else of a path. -/
theorem appliesTo_congr {path' : Text} (hbasename : r.basenameOnly = true)
    (h : Path.baseName path = Path.baseName path') :
    r.appliesTo path isDirectory = r.appliesTo path' isDirectory := by
  rw [appliesTo, appliesTo, candidate?, candidate?, if_pos hbasename, if_pos hbasename, h]

/--
**A rule without double stars applies on one level beneath its file only**: one level down, and one more
for each separator and each slash in a literal. So an anchored rule of one segment applies only in the
directory of its file. A rule for last segments applies to paths with the same last segment alike, on
whatever level they are.
-/
theorem depth_of_appliesTo (hsource : Path.IsCanonical source)
    (h : ofLine source line raw = .ok (some r)) :
    ((∀ t ∈ r.glob.tokens, t ≠ .globstar ∧ t ≠ .globstarSlash) →
      ∀ path isDirectory, Path.IsCanonical path → Path.IsAncestor r.baseDir path →
        r.appliesTo path isDirectory = true →
        (r.basenameOnly = false →
          Path.depth path = Path.depth r.baseDir + Glob.levels r.glob.tokens) ∧
        (r.anchored = true → Glob.levels r.glob.tokens = 1 → Path.dirName path = r.baseDir)) ∧
    (r.basenameOnly = true →
      ∀ path path' isDirectory, Path.IsCanonical path → Path.IsCanonical path' →
        (path.splitOn '/').getLast? = (path'.splitOn '/').getLast? →
        r.appliesTo path isDirectory = r.appliesTo path' isDirectory) := by
  have hdirectory : Path.IsCanonical r.baseDir := by
    rw [baseDir, (eq_of_ofLine h).1]
    exact Path.isCanonical_dirName hsource
  constructor
  · intro hstar path isDirectory hpath hbeneath happlies
    have hdepth (hbasename : r.basenameOnly = false) :=
      depth_eq_of_appliesTo hdirectory hpath hbeneath hbasename hstar happlies
    refine ⟨hdepth, fun hanchored hone => ?_⟩
    have hbasename : r.basenameOnly = false := by
      rw [← Bool.not_eq_true, basenameOnly_iff_of_ofLine h, hanchored]
      simp
    exact Path.dirName_of_depth hdirectory hpath hbeneath (hone ▸ hdepth hbasename)
  · intro hbasename path path' isDirectory hpath hpath' hlast
    rw [Path.getLast?_splitOn_of_isCanonical hpath, Path.getLast?_splitOn_of_isCanonical hpath',
      Option.some.injEq] at hlast
    exact appliesTo_congr hbasename hlast

/-- An escaped slash and a separator, and a set and a star that stay within a segment; and a rule for last
segments. -/
theorem depth_of_appliesTo_escaped :
    let source := "/r/s/.aiignore".toList
    let path := "/r/s/a/x/c".toList
    Path.IsCanonical source ∧
    (∃ r, ofLine source 1 "/a\\/?/[!b]*/".toList = .ok (some r) ∧ r.basenameOnly = false ∧
      (∀ t ∈ r.glob.tokens, t ≠ .globstar ∧ t ≠ .globstarSlash) ∧
      r.appliesTo path true = true ∧ Glob.levels r.glob.tokens = 3 ∧
      Path.depth path = Path.depth r.baseDir + Glob.levels r.glob.tokens) ∧
    ∃ r, ofLine source 2 "[!b]".toList = .ok (some r) ∧ r.basenameOnly = true ∧
      r.appliesTo path true = true ∧ r.appliesTo "/r/c".toList true = true := by
  intro source path
  have hsource : Path.IsCanonical source := .inr ⟨"r/s/.aiignore".toList, rfl, by decide⟩
  have hpath : Path.IsCanonical path := .inr ⟨"r/s/a/x/c".toList, rfl, by decide⟩
  have hshort : Path.IsCanonical "/r/c".toList := .inr ⟨"r/c".toList, rfl, by decide⟩
  have hdeep : (ofLine? source 1 "/a\\/?/[!b]*/".toList).any (fun r => decide (r.basenameOnly = false ∧
      (∀ t ∈ r.glob.tokens, t ≠ .globstar ∧ t ≠ .globstarSlash) ∧ Path.IsAncestor r.baseDir path ∧
      r.appliesTo path true = true ∧ Glob.levels r.glob.tokens = 3)) = true := by decide +kernel
  have hflat : (ofLine? source 2 "[!b]".toList).any (fun r =>
      decide (r.basenameOnly = true ∧ r.appliesTo path true = true)) = true := by decide +kernel
  obtain ⟨r, hr, hfacts⟩ := (Option.any_eq_true _ _).mp hdeep
  obtain ⟨hbasename, hstar, hbeneath, happlies, hlevels⟩ := of_decide_eq_true hfacts
  obtain ⟨r', hr', hfacts'⟩ := (Option.any_eq_true _ _).mp hflat
  obtain ⟨hbasename', happlies'⟩ := of_decide_eq_true hfacts'
  rw [ofLine?_eq_some_iff] at hr hr'
  have hdepth := ((depth_of_appliesTo hsource hr).1 hstar path true hpath hbeneath happlies).1 hbasename
  have hsame := (depth_of_appliesTo hsource hr').2 hbasename' path "/r/c".toList true hpath hshort
    (by decide)
  exact ⟨hsource, ⟨r, hr, hbasename, hstar, happlies, hlevels, hdepth⟩,
    r', hr', hbasename', happlies', hsame ▸ happlies'⟩

end Rule

end PathIgnore
