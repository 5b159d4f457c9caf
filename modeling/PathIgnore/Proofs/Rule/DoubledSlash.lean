import PathIgnore.Proofs.Glob.Edges
import PathIgnore.Proofs.Path.Rebase

/-!
# Doubled slashes

A line gives up one slash in front and one slash at its end. Of a doubled slash there, the other one is
left to the pattern, and a pattern may have one separator in front and one at its end. So such a line is
a rule, although its pattern takes no path as seen from a directory (`ofLine_doubled`). A doubled slash
that is left within the pattern is an empty segment, and the line is refused.
-/

namespace PathIgnore

namespace Line

/-- A doubled slash in front, or behind the mark of negation. -/
def StartsDoubled (t : Text) : Prop := ['/', '/'] <+: t ∨ ['!', '/', '/'] <+: t

/-- A doubled slash at the end, the first slash of which no backslash escapes. -/
def EndsDoubled (t : Text) : Prop :=
  ∃ body n, t = body ++ ['/', '/'] ∧ EndsInRun n body ∧ n % 2 = 0

/-! ## The pattern of a line -/

theorem endsDoubled_iff {t : Text} :
    EndsDoubled t ↔ endsInSlash t = true ∧ endsInSlash t.dropLast = true := by
  constructor
  · rintro ⟨body, n, rfl, hrun, heven⟩
    have hdrop : (body ++ ['/', '/']).dropLast = body ++ ['/'] := by
      rw [List.dropLast_append_of_ne_nil (List.cons_ne_nil _ _)]
      rfl
    refine ⟨?_, ?_⟩
    · rw [endsInSlash, hdrop, endsInEscape_of_getLast? (by simp)]
      simp
    · rw [hdrop]
      exact endsInSlash_iff.mpr ⟨body, n, rfl, hrun, heven⟩
  · rintro ⟨hslash, hdrop⟩
    obtain ⟨front, n, rfl, -, -⟩ := endsInSlash_iff.mp hslash
    rw [List.dropLast_concat] at hdrop
    obtain ⟨body, n, rfl, hrun, heven⟩ := endsInSlash_iff.mp hdrop
    exact ⟨body, n, by simp, hrun, heven⟩

theorem head?_takeAnchor_iff {r : Text} :
    (takeAnchor r).2.head? = some '/' ↔ ['/', '/'] <+: r := by
  rcases takeAnchor_cases r with ⟨r', rfl, h⟩ | ⟨hne, h⟩ <;> rw [h]
  · cases r' <;> simp [eq_comm]
  · refine iff_of_false hne ?_
    rintro ⟨r', rfl⟩
    exact hne rfl

theorem head?_afterMarks_iff {t : Text} : (afterMarks t).head? = some '/' ↔ StartsDoubled t := by
  unfold afterMarks StartsDoubled
  rcases takeNegation_cases t with ⟨r, rfl, h, -⟩ | ⟨c, r, hc, rfl, h, -⟩ | ⟨hne, h, -⟩ <;>
    rw [h, head?_takeAnchor_iff]
  · simp
  · rcases hc with rfl | rfl <;> simp
  · refine (or_iff_left ?_).symm
    rintro ⟨r, rfl⟩
    exact hne rfl

theorem pattern_isPrefix_afterMarks (t : Text) : (parse t).pattern <+: afterMarks t := by
  rw [pattern_parse]
  split
  · exact List.dropLast_prefix _
  · exact List.prefix_rfl

/-- **The pattern starts with a slash if two stand in front.** -/
theorem head?_pattern_iff {t : Text} (hne : (parse t).pattern ≠ []) :
    (parse t).pattern.head? = some '/' ↔ StartsDoubled t := by
  obtain ⟨back, hback⟩ := pattern_isPrefix_afterMarks t
  rw [← head?_afterMarks_iff, ← hback, List.head?_append_of_ne_nil _ hne]

/-- Marks take no meaning away from the end of what follows them. -/
theorem endsInSlash_marks_append {t u : Text} (hu : u ≠ []) (hstart : u <+: afterMarks t) :
    endsInSlash ((parse t).marks (hidesMark t) ++ u) = endsInSlash u := by
  have hmarks (h : hidesMark t = false) : endsInEscape ((parse t).marks (hidesMark t)) = false := by
    rw [h, marks]
    cases (parse t).negated <;> cases (parse t).anchored <;> decide
  rcases takeNegation_cases t with ⟨r, -, -, h⟩ | ⟨c, r, hc, rfl, h, -⟩ | ⟨-, -, h⟩
  · exact endsInSlash_append (hmarks h) hu
  · -- The mark that the backslash hides comes first.
    have hslash : c ≠ '/' := by rcases hc with rfl | rfl <;> decide
    have hback : c ≠ '\\' := by rcases hc with rfl | rfl <;> decide
    rw [afterMarks, h, takeAnchor, if_neg hslash] at hstart
    obtain ⟨d, u, rfl⟩ := List.exists_cons_of_ne_nil hu
    obtain ⟨rfl, -⟩ := List.cons_prefix_cons.mp hstart
    exact endsInSlash_append_cons hback hslash _ u
  · exact endsInSlash_append (hmarks h) hu

/-- **The pattern ends in a slash if two stand at the end.** -/
theorem endsInSlash_pattern_iff {t : Text} (hshared : ¬ SharesSlash t)
    (hne : (parse t).pattern ≠ []) : endsInSlash (parse t).pattern = true ↔ EndsDoubled t := by
  rw [← endsInSlash_marks_append hne (pattern_isPrefix_afterMarks t),
    ← body_eq_marks_append_pattern hshared, endsDoubled_iff]
  split
  · next h => rw [h, eq_self, true_and]
  · next h => exact iff_of_false h fun hdoubled => h hdoubled.1

end Line

/-! ## Rules -/

namespace Rule

variable {source raw : Text} {line : Int} {r : Rule}

/-- A separator at an end of the tokens is a doubled slash at that end of the line. -/
theorem separator_iff_of_ofLine (h : ofLine source line raw = .ok (some r)) :
    (r.glob.tokens.head? = some .separator ↔ Line.StartsDoubled (Line.trimmed raw)) ∧
      (r.glob.tokens.getLast? = some .separator ↔ Line.EndsDoubled (Line.trimmed raw)) := by
  obtain ⟨-, -, -, hparts⟩ := eq_of_ofLine h
  obtain ⟨-, hparse⟩ := Line.ofText?_eq_some_iff.mp hparts
  have hpattern : (Line.parse (Line.trimmed raw)).pattern = r.glob.pattern := by rw [hparse]
  have hne : (Line.parse (Line.trimmed raw)).pattern ≠ [] := hpattern ▸ r.glob.pattern_ne_nil
  rw [r.glob.head?_tokens_iff, r.glob.getLast?_tokens_iff, ← hpattern]
  exact ⟨Line.head?_pattern_iff hne,
    Line.endsInSlash_pattern_iff (not_sharesSlash_of_ofLine h) hne⟩

/-- **A rule whose tokens start or end with a separator applies to nothing.** -/
theorem not_appliesTo_of_separator (h : ofLine source line raw = .ok (some r))
    (hends : r.glob.tokens.head? = some .separator ∨ r.glob.tokens.getLast? = some .separator)
    (hdirectory : Path.IsCanonical (Path.dirName source)) {path : Text}
    (hpath : Path.IsCanonical path) (isDirectory : Bool) : r.appliesTo path isDirectory = false := by
  obtain ⟨hsource, -, -, -⟩ := eq_of_ofLine h
  have hslash : '/' ∈ r.glob.pattern := by
    rcases hends with hfirst | hlast
    · exact List.mem_of_mem_head? (r.glob.head?_tokens_iff.mp hfirst)
    · obtain ⟨body, n, heq, -, -⟩ :=
        Line.endsInSlash_iff.mp (r.glob.getLast?_tokens_iff.mp hlast)
      simp [heq]
  -- So it is no rule for last segments.
  have hbasename : ¬ r.basenameOnly = true := fun hbasename =>
    ((basenameOnly_iff_of_ofLine h).mp hbasename).2 hslash
  have hcandidate : r.candidate? path = Path.relative? (Path.dirName source) path := by
    rw [candidate?, if_neg hbasename, baseDir, hsource]
  rw [appliesTo, hcandidate]
  cases hrelative : Path.relative? (Path.dirName source) path with
  | none => exact Bool.and_false _
  | some x =>
    obtain ⟨hfirst, hlast⟩ := Path.ends_of_relative? hdirectory hpath hrelative
    have hrefused : r.glob.accepts x = false := by
      refine Bool.eq_false_iff.mpr fun haccepts => ?_
      rcases hends with hhead | hend
      · exact hfirst (r.glob.head?_of_accepts hhead haccepts)
      · exact hlast (r.glob.getLast?_of_accepts hend haccepts)
    rw [Option.any_some, hrefused, Bool.and_false]

theorem exists_ofLine_of_tokenize {parts : Line} {ts : List Glob.Token}
    (hskipped : Line.isSkipped raw = false) (hparts : Line.parse (Line.trimmed raw) = parts)
    (hts : Glob.tokenize parts.pattern = .ok ts) :
    ∃ r, ofLine source line raw = .ok (some r) ∧ r.glob.tokens = ts := by
  have hglob := (Glob.compile_eq_ok_iff (g := ⟨parts.pattern, ts, hts⟩)).mpr ⟨rfl, hts⟩
  exact ⟨_, ofLine_eq_ok_some hskipped hparts hglob, rfl⟩

/--
**The tokens of a rule start with a separator exactly if its line starts with a doubled slash, and end
with one exactly if the line ends in a doubled slash that no backslash escapes; the rule then applies to
no path. A line is refused if its pattern has a doubled slash behind a text that reads by itself, or
behind nothing.**
-/
theorem ofLine_doubled (source : Text) (line : Int) (raw : Text) :
    let t := Line.trimmed raw
    (∀ r, ofLine source line raw = .ok (some r) →
      (r.glob.tokens.head? = some .separator ↔ Line.StartsDoubled t) ∧
      (r.glob.tokens.getLast? = some .separator ↔ Line.EndsDoubled t) ∧
      (Line.StartsDoubled t ∨ Line.EndsDoubled t → Path.IsCanonical (Path.dirName source) →
        ∀ path isDirectory, Path.IsCanonical path → r.appliesTo path isDirectory = false)) ∧
    ∀ parts p q, Line.ofText? raw = some parts → parts.pattern = p ++ '/' :: '/' :: q →
      (p = [] ∨ ∃ ts, Glob.tokenize p = .ok ts) → ∃ e, ofLine source line raw = .error e := by
  intro t
  constructor
  · intro r hr
    obtain ⟨hfirst, hlast⟩ := separator_iff_of_ofLine hr
    refine ⟨hfirst, hlast, fun hdoubled hdirectory path isDirectory hpath => ?_⟩
    rw [← hfirst, ← hlast] at hdoubled
    exact not_appliesTo_of_separator hr hdoubled hdirectory hpath isDirectory
  · intro parts p q hparts hpattern hp
    obtain ⟨e, he⟩ := Glob.tokenize_doubled hp q
    rw [← hpattern] at he
    exact ⟨_, ofLine_eq_error hparts he⟩

/-- A doubled slash at both ends, behind an escaped backslash at the second, and one in between. -/
theorem ofLine_doubled_both_ends :
    let source := "/r/.aiignore".toList
    let raw := "!//a\\\\// ".toList
    let t := Line.trimmed raw
    let path := "/r/a".toList
    (Line.StartsDoubled t ∧ Line.EndsDoubled t ∧ Path.IsCanonical (Path.dirName source) ∧
      Path.IsCanonical path) ∧
    (∃ r, ofLine source 1 raw = .ok (some r) ∧
      (r.glob.tokens.head? = some .separator ↔ Line.StartsDoubled t) ∧
      (r.glob.tokens.getLast? = some .separator ↔ Line.EndsDoubled t) ∧
      r.appliesTo path true = false) ∧
    ∃ e, ofLine source 2 "/x/[/]//b/".toList = .error e := by
  intro source raw t path
  have hstarts : Line.StartsDoubled t := .inr (by decide +kernel)
  have hends : Line.EndsDoubled t :=
    ⟨"!//a\\\\".toList, 2, by decide +kernel, ⟨"!//a".toList, rfl, by decide⟩, rfl⟩
  have hdirectory : Path.IsCanonical (Path.dirName source) := .inr ⟨['r'], by decide, by decide⟩
  have hpath : Path.IsCanonical path := .inr ⟨"r/a".toList, rfl, by decide⟩
  have hrule : ∃ r, ofLine source 1 raw = .ok (some r) ∧
      r.glob.tokens = [.separator, .literal "a\\".toList, .separator] :=
    exists_ofLine_of_tokenize (by decide) rfl (by decide +kernel)
  obtain ⟨r, hr, -⟩ := hrule
  obtain ⟨hfirst, hlast, happlies⟩ := (ofLine_doubled source 1 raw).1 r hr
  have hparts : Line.ofText? "/x/[/]//b/".toList =
      some { directoryOnly := true, anchored := true, pattern := "x/[/]//b".toList } := by
    decide +kernel
  have hbefore : ∃ ts, Glob.tokenize "x/[/]".toList = .ok ts :=
    ⟨[.literal ['x'], .separator, .bracket "[/]".toList ⟨false, [.single '/']⟩], by decide +kernel⟩
  have hrefused := (ofLine_doubled source 2 "/x/[/]//b/".toList).2 _ "x/[/]".toList ['b'] hparts rfl
    (.inr hbefore)
  exact ⟨⟨hstarts, hends, hdirectory, hpath⟩,
    ⟨r, hr, hfirst, hlast, happlies (.inl hstarts) hdirectory path true hpath⟩, hrefused⟩

/-- **A doubled slash at an end of a line is kept, although it is refused in between.** -/
theorem ofLine_doubled_kept :
    let source := "/r/.aiignore".toList
    (∃ r, ofLine source 1 "//a".toList = .ok (some r) ∧
      r.glob.tokens = [.separator, .literal ['a']]) ∧
    (∃ r, ofLine source 2 "a//".toList = .ok (some r) ∧
      r.glob.tokens = [.literal ['a'], .separator]) ∧
    ofLine source 3 "a//b".toList =
      .error ⟨source, 3, "a//b".toList, "a//b".toList, .emptySegment, 2⟩ := by
  intro source
  refine ⟨exists_ofLine_of_tokenize (by decide) rfl (by decide +kernel),
    exists_ofLine_of_tokenize (by decide) rfl (by decide +kernel), ?_⟩
  have hparts : Line.ofText? "a//b".toList = some { pattern := "a//b".toList } := by decide +kernel
  exact ofLine_eq_error hparts (by decide +kernel)

end Rule

end PathIgnore
