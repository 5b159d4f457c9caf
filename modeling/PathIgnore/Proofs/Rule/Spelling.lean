import PathIgnore.Rule.Basic

/-!
# How a line is spelled

`Line.spelled` writes the parts of a line one after the other again: the mark of negation, the backslash
that hides a mark, the slash in front, the pattern, the slash at the end. Taking a line apart loses
nothing of its trimmed text (`spelled_parse`). The one slash of `/` and `!/` counts as both slashes, and
then nothing is left for a pattern.

So a rule shows its line, blanks at the end apart, and an error shows the pattern that does not read
(`ofLine_takesApart`).
-/

namespace PathIgnore

namespace Line

/-- A backslash in front takes the meaning of a mark away. -/
def hidesMark (t : Text) : Bool := ['\\', '!'].isPrefixOf t || ['\\', '#'].isPrefixOf t

/-- What stands in front of the pattern; `hidden` tells whether a backslash hides a mark. -/
def marks (hidden : Bool) (l : Line) : Text :=
  (if l.negated then ['!'] else []) ++ (if hidden then ['\\'] else []) ++
    (if l.anchored then ['/'] else [])

/-- The text of a line with these parts. -/
def spelled (hidden : Bool) (l : Line) : Text :=
  l.marks hidden ++ l.pattern ++ (if l.directoryOnly then ['/'] else [])

/-- The text ends in `n` backslashes and no more. -/
def EndsInRun (n : Nat) (t : Text) : Prop :=
  ∃ front, t = front ++ List.replicate n '\\' ∧ front.getLast? ≠ some '\\'

/-! ## Runs of backslashes -/

/-- A backslash turns the escape over, and any other character ends the run. -/
theorem endsInEscape_concat (t : Text) (c : Char) :
    endsInEscape (t ++ [c]) = (c == '\\' && !endsInEscape t) := by
  unfold endsInEscape
  rw [Text.takeEndWhile_concat]
  by_cases hc : c = '\\'
  · rw [if_pos (by simpa using hc), List.length_append, List.length_singleton]
    grind
  · rw [if_neg (by simpa using hc)]
    simp [hc]

theorem endsInEscape_of_getLast? {t : Text} (h : t.getLast? ≠ some '\\') : endsInEscape t = false := by
  rcases List.eq_nil_or_concat t with rfl | ⟨front, c, rfl⟩
  · rfl
  · rw [List.concat_eq_append, List.getLast?_concat] at h
    rw [List.concat_eq_append, endsInEscape_concat, beq_eq_false_iff_ne.mpr (by simpa using h)]
    rfl

theorem EndsInRun.endsInEscape_eq {n : Nat} {t : Text} (h : EndsInRun n t) :
    endsInEscape t = (n % 2 == 1) := by
  obtain ⟨front, rfl, hfront⟩ := h
  induction n with
  | zero =>
    rw [List.replicate_zero, List.append_nil]
    exact endsInEscape_of_getLast? hfront
  | succ n ih =>
    rw [List.replicate_succ', ← List.append_assoc, endsInEscape_concat, ih]
    grind

/-- Every text ends in some run, be it of no backslash. -/
theorem exists_endsInRun (t : Text) : ∃ n, EndsInRun n t := by
  have hsplit := Text.dropEndWhile_append_takeEndWhile (· == '\\') t
  have hrun : Text.takeEndWhile (· == '\\') t =
      List.replicate (Text.takeEndWhile (· == '\\') t).length '\\' := by
    refine List.eq_replicate_of_mem fun c hc => ?_
    simpa using Text.of_mem_takeEndWhile hc
  refine ⟨_, Text.dropEndWhile (· == '\\') t, by rw [← hrun]; exact hsplit.symm, ?_⟩
  intro hlast
  have hstop := Text.getLast?_dropEndWhile (p := (· == '\\')) (t := t) '\\' hlast
  cases hstop

/-- A slash ends the text and no backslash escapes it. -/
theorem endsInSlash_iff {t : Text} :
    endsInSlash t = true ↔ ∃ body n, t = body ++ ['/'] ∧ EndsInRun n body ∧ n % 2 = 0 := by
  rw [endsInSlash, Bool.and_eq_true, beq_iff_eq, Bool.not_eq_true']
  constructor
  · rintro ⟨hlast, hescape⟩
    obtain ⟨n, hn⟩ := exists_endsInRun t.dropLast
    rw [hn.endsInEscape_eq] at hescape
    obtain ⟨body, rfl⟩ := List.getLast?_eq_some_iff.mp hlast
    rw [List.dropLast_concat] at hn
    exact ⟨body, n, rfl, hn, by simpa using hescape⟩
  · rintro ⟨body, n, rfl, hn, heven⟩
    rw [List.getLast?_concat, List.dropLast_concat, hn.endsInEscape_eq, heven]
    exact ⟨rfl, rfl⟩

/-! ## Blanks at the end -/

/-- **Of the blanks at the end nothing stays, or the first one if it is escaped.** -/
theorem trimmed_append {core ws : Text} (hws : ∀ c ∈ ws, isBlank c = true)
    (hcore : ∀ c ∈ core.getLast?, isBlank c = false) :
    trimmed (core ++ ws) =
      if ws = [] then core
      else if endsInEscape core then core.dropLast ++ ws.take 1 else core := by
  have hblanks : ∀ c ∈ ws.reverse, isBlank c = true := fun c hc => hws c (List.mem_reverse.mp hc)
  have hcut : Text.stripEnd (core ++ ws) = core := by
    have hstop : Text.dropEndWhile isBlank core = core := Text.dropEndWhile_eq_self hcore
    rw [Text.stripEnd, Text.dropEndWhile, List.reverse_append, List.dropWhile_append_of_pos hblanks]
    exact hstop
  have hrest : Text.trailingBlanks (core ++ ws) = ws :=
    List.append_cancel_left (hcut ▸ Text.stripEnd_append_trailingBlanks (core ++ ws))
  unfold trimmed
  rw [hcut, hrest]
  cases ws with
  | nil => simp
  | cons blank ws => simp

theorem trimmed_append_of_endsInRun {core ws : Text} {n : Nat} (hws : ∀ c ∈ ws, isBlank c = true)
    (hcore : ∀ c ∈ core.getLast?, isBlank c = false) (hrun : EndsInRun n core) :
    trimmed (core ++ ws) =
      if ws = [] then core ++ ws
      else if n % 2 = 1 then core.dropLast ++ ws.take 1 else core := by
  rw [trimmed_append hws hcore, hrun.endsInEscape_eq]
  by_cases hnil : ws = []
  · simp [hnil]
  · simp [hnil]

/-! ## Marks in front -/

/-- **A line starts with a mark of negation, with a hidden mark, or with neither.** -/
theorem takeNegation_cases (t : Text) :
    (∃ r, t = '!' :: r ∧ takeNegation t = (true, r) ∧ hidesMark t = false) ∨
      (∃ c r, (c = '!' ∨ c = '#') ∧ t = '\\' :: c :: r ∧ takeNegation t = (false, c :: r) ∧
        hidesMark t = true) ∨
      (t.head? ≠ some '!' ∧ takeNegation t = (false, t) ∧ hidesMark t = false) := by
  cases t with
  | nil => exact .inr (.inr ⟨by simp, rfl, rfl⟩)
  | cons c r =>
    by_cases hbang : c = '!'
    · subst hbang
      exact .inl ⟨r, rfl, rfl, rfl⟩
    · by_cases hhidden : c = '\\' ∧ (r.head? = some '!' ∨ r.head? = some '#')
      · obtain ⟨rfl, hmark⟩ := hhidden
        obtain ⟨d, r', rfl⟩ : ∃ d r', r = d :: r' := by
          cases r with
          | nil => simp at hmark
          | cons d r' => exact ⟨d, r', rfl⟩
        have hd : d = '!' ∨ d = '#' := by simpa using hmark
        refine .inr (.inl ⟨d, r', hd, rfl, ?_, ?_⟩)
        · rw [takeNegation, if_neg hbang, if_pos ⟨rfl, hmark⟩]
        · rcases hd with rfl | rfl <;> rfl
      · refine .inr (.inr ⟨by simpa using hbang, ?_, ?_⟩)
        · rw [takeNegation, if_neg hbang, if_neg hhidden]
        · by_cases hback : c = '\\'
          · subst hback
            cases r with
            | nil => rfl
            | cons d r' =>
              have hd : ¬ (d = '!' ∨ d = '#') := by simpa using hhidden
              rw [not_or] at hd
              simp [hidesMark, List.isPrefixOf, Ne.symm hd.1, Ne.symm hd.2]
          · simp [hidesMark, List.isPrefixOf, Ne.symm hback]

theorem takeAnchor_cases (t : Text) :
    (∃ r, t = '/' :: r ∧ takeAnchor t = (true, r)) ∨
      (t.head? ≠ some '/' ∧ takeAnchor t = (false, t)) := by
  cases t with
  | nil => exact .inr ⟨by simp, rfl⟩
  | cons c r =>
    by_cases hc : c = '/'
    · subst hc
      exact .inl ⟨r, rfl, rfl⟩
    · exact .inr ⟨by simpa using hc, by rw [takeAnchor, if_neg hc]⟩

/-- The line without the marks in front. -/
def afterMarks (t : Text) : Text := (takeAnchor (takeNegation t).2).2

theorem pattern_parse (t : Text) :
    (parse t).pattern = if endsInSlash t then (afterMarks t).dropLast else afterMarks t := rfl

/-- **Taking the marks off loses nothing.** -/
theorem marks_append_afterMarks (t : Text) : (parse t).marks (hidesMark t) ++ afterMarks t = t := by
  have hanchor : ∀ r : Text, (if (takeAnchor r).1 then ['/'] else []) ++ (takeAnchor r).2 = r := by
    intro r
    rcases takeAnchor_cases r with ⟨r', rfl, h⟩ | ⟨-, h⟩ <;> rw [h] <;> rfl
  have hnegation : (if (takeNegation t).1 then ['!'] else []) ++
      (if hidesMark t then ['\\'] else []) ++ (takeNegation t).2 = t := by
    rcases takeNegation_cases t with ⟨r, rfl, h, hh⟩ | ⟨c, r, -, rfl, h, hh⟩ | ⟨-, h, hh⟩ <;>
      rw [h, hh] <;> rfl
  rw [← hanchor (takeNegation t).2] at hnegation
  rw [marks, List.append_assoc]
  exact hnegation

/-- An anchor may be all there is. -/
theorem eq_slash_of_takeAnchor {t : Text} (hne : t ≠ []) (h : (takeAnchor t).2 = []) : t = ['/'] := by
  rcases takeAnchor_cases t with ⟨r, rfl, hr⟩ | ⟨-, hr⟩ <;> rw [hr] at h
  · exact congrArg _ h
  · exact absurd h hne

/-- Where the marks are all there is to a line that ends in a slash, that slash is one of them. -/
theorem eq_slash_of_afterMarks {t : Text} (hslash : t.getLast? = some '/') (h : afterMarks t = []) :
    t = ['/'] ∨ t = ['!', '/'] := by
  have hne : t ≠ [] := by
    rintro rfl
    cases hslash
  unfold afterMarks at h
  rcases takeNegation_cases t with ⟨r, rfl, ht, -⟩ | ⟨c, r, hc, rfl, ht, -⟩ | ⟨-, ht, -⟩ <;>
    rw [ht] at h
  · have hr : r ≠ [] := by
      rintro rfl
      cases hslash
    exact .inr (congrArg _ (eq_slash_of_takeAnchor hr h))
  · -- The hidden mark stays.
    have hmark := eq_slash_of_takeAnchor (List.cons_ne_nil c r) h
    rcases hc with rfl | rfl <;> cases hmark
  · exact .inl (eq_slash_of_takeAnchor hne h)

theorem slash_mem_marks_iff {hidden : Bool} {l : Line} :
    '/' ∈ l.marks hidden ↔ l.anchored = true := by
  unfold marks
  cases l.negated <;> cases hidden <;> cases l.anchored <;> decide

/-! ## All parts -/

/-- The slash at the end and the slash in front are one. -/
def SharesSlash (t : Text) : Prop := t = ['/'] ∨ t = ['!', '/']

/-- **The parts of a line spell it**, unless one slash counts as two; then no pattern is left. -/
theorem spelled_parse (t : Text) :
    t = (parse t).spelled (hidesMark t) ∨ SharesSlash t ∧ (parse t).pattern = [] := by
  have hwhole := marks_append_afterMarks t
  have hdir : (parse t).directoryOnly = endsInSlash t := rfl
  rw [spelled, hdir, pattern_parse]
  by_cases hslash : endsInSlash t = true
  · rw [if_pos hslash, if_pos hslash]
    have hlast : t.getLast? = some '/' := by
      rw [endsInSlash, Bool.and_eq_true, beq_iff_eq] at hslash
      exact hslash.1
    by_cases hnil : afterMarks t = []
    · exact .inr ⟨eq_slash_of_afterMarks hlast hnil, by rw [hnil]; rfl⟩
    · left
      have hend : (afterMarks t).getLast? = some '/' := by
        rw [← hwhole, List.getLast?_append, List.getLast?_eq_some_getLast hnil, Option.some_or] at hlast
        rw [List.getLast?_eq_some_getLast hnil, hlast]
      obtain ⟨pattern, hpattern⟩ := List.getLast?_eq_some_iff.mp hend
      rw [hpattern] at hwhole
      rw [hpattern, List.dropLast_concat, List.append_assoc, hwhole]
  · rw [if_neg hslash, if_neg hslash, List.append_nil]
    exact .inl hwhole.symm

/-- What the parts of a line say about its trimmed text `t`. -/
structure TakesApart (t : Text) (l : Line) : Prop where
  spelled_eq : t = l.spelled (hidesMark t)
  negated_iff : l.negated = true ↔ t.head? = some '!'
  directoryOnly_iff : l.directoryOnly = true ↔
    ∃ body n, t = body ++ ['/'] ∧ EndsInRun n body ∧ n % 2 = 0
  basenameOnly_iff : l.basenameOnly = true ↔ l.anchored = false ∧ '/' ∉ l.pattern
  anchored_of_head? : l.pattern.head? = some '/' → l.anchored = true

theorem negated_parse_iff (t : Text) : (parse t).negated = true ↔ t.head? = some '!' := by
  show (takeNegation t).1 = true ↔ _
  rcases takeNegation_cases t with ⟨r, rfl, h, -⟩ | ⟨c, r, -, rfl, h, -⟩ | ⟨hne, h, -⟩ <;> rw [h]
  · exact iff_of_true rfl rfl
  · exact iff_of_false Bool.false_ne_true (by simp)
  · exact iff_of_false Bool.false_ne_true hne

/-- A pattern that starts with a slash has another one in front. -/
theorem anchored_parse_of_head? {t : Text} (h : (parse t).pattern.head? = some '/') :
    (parse t).anchored = true := by
  have hafter : (afterMarks t).head? = some '/' := by
    rw [pattern_parse] at h
    split at h
    · obtain ⟨r, hr⟩ := List.head?_eq_some_iff.mp h
      obtain ⟨last, hlast⟩ := List.dropLast_prefix (afterMarks t)
      rw [← hlast, hr]
      rfl
    · exact h
  show (takeAnchor (takeNegation t).2).1 = true
  rcases takeAnchor_cases (takeNegation t).2 with ⟨r, -, hr⟩ | ⟨hne, hr⟩
  · rw [hr]
  · rw [afterMarks, hr] at hafter
    exact absurd hafter hne

/-- Without the slash at its end a line is its marks and its pattern. -/
theorem body_eq_marks_append_pattern {t : Text} (h : ¬ SharesSlash t) :
    (if endsInSlash t then t.dropLast else t) =
      (parse t).marks (hidesMark t) ++ (parse t).pattern := by
  have hspelled := (spelled_parse t).resolve_right fun hshared => h hshared.1
  have hdir : (parse t).directoryOnly = endsInSlash t := rfl
  rw [spelled, hdir] at hspelled
  split
  · next hslash =>
    rw [if_pos hslash] at hspelled
    rw [congrArg List.dropLast hspelled, List.dropLast_concat]
  · next hslash =>
    rw [if_neg hslash, List.append_nil] at hspelled
    exact hspelled

/-- **The pattern stands for a last segment if there is no slash in it nor in front of it.** -/
theorem basenameOnly_parse_iff (t : Text) :
    (parse t).basenameOnly = true ↔ (parse t).anchored = false ∧ '/' ∉ (parse t).pattern := by
  have hbase : (parse t).basenameOnly =
      (!(if endsInSlash t then t.dropLast else t).contains '/' && !(parse t).anchored) := rfl
  rw [hbase, Bool.and_eq_true, Bool.not_eq_true', Bool.not_eq_true', and_comm]
  refine and_congr_right fun hanchored => ?_
  have hmarks : '/' ∉ (parse t).marks (hidesMark t) := by
    rw [slash_mem_marks_iff, hanchored]
    exact Bool.false_ne_true
  have hshared : ¬ SharesSlash t := by
    rintro (rfl | rfl) <;> cases hanchored
  rw [body_eq_marks_append_pattern hshared]
  simp [hmarks]

theorem pattern_parse_of_sharesSlash {t : Text} (h : SharesSlash t) : (parse t).pattern = [] := by
  rcases h with rfl | rfl <;> rfl

/-- **What is taken off a line says what its trimmed text shows.** -/
theorem takesApart_parse {t : Text} (h : ¬ SharesSlash t) : TakesApart t (parse t) where
  spelled_eq := (spelled_parse t).resolve_right fun hshared => h hshared.1
  negated_iff := negated_parse_iff t
  directoryOnly_iff := endsInSlash_iff
  basenameOnly_iff := basenameOnly_parse_iff t
  anchored_of_head? := anchored_parse_of_head?

theorem ofText?_eq_some_iff {raw : Text} {l : Line} :
    ofText? raw = some l ↔ isSkipped raw = false ∧ parse (trimmed raw) = l := by
  unfold ofText?
  split <;> simp_all

end Line

theorem Glob.pattern_of_tokenize_error {p : Text} {e : PatternError} (h : tokenize p = .error e) :
    e.pattern = p := by
  unfold tokenize at h
  cases hread : readPattern p with
  | error stuck =>
    rw [hread] at h
    cases h
    rfl
  | ok ts =>
    rw [hread] at h
    cases h

namespace Rule

/-- The rule of a line whose pattern compiles. -/
theorem ofLine_eq_ok_some {source raw : Text} {line : Int} {parts : Line} {g : Glob}
    (hskipped : Line.isSkipped raw = false) (hparts : Line.parse (Line.trimmed raw) = parts)
    (hg : Glob.compile parts.pattern = .ok g) :
    ofLine source line raw = .ok (some { parts.toFlags with source, line, raw, glob := g }) := by
  have htext : Line.ofText? raw = some parts := Line.ofText?_eq_some_iff.mpr ⟨hskipped, hparts⟩
  rw [ofLine, htext]
  dsimp only
  rw [hg]

/-- The error of a line whose pattern does not read. -/
theorem ofLine_eq_error {source raw : Text} {line : Int} {parts : Line} {e : Glob.PatternError}
    (hparts : Line.ofText? raw = some parts) (he : Glob.tokenize parts.pattern = .error e) :
    ofLine source line raw = .error ⟨source, line, raw, e⟩ := by
  rw [ofLine, hparts]
  dsimp only
  rw [Glob.compile_eq_error_iff.mpr he]

/-- What an error keeps of its line. -/
theorem eq_of_ofLine_error {source raw : Text} {line : Int} {e : RuleError}
    (h : ofLine source line raw = .error e) :
    e.source = source ∧ e.line = line ∧ e.raw = raw ∧
      Glob.tokenize e.cause.pattern = .error e.cause ∧
      ∃ flags, Line.ofText? raw = some ⟨flags, e.cause.pattern⟩ := by
  unfold ofLine at h
  split at h
  · cases h
  · next parts hparts =>
    split at h
    · next cause hcause =>
      cases h
      rw [Glob.compile_eq_error_iff] at hcause
      have hpattern : cause.pattern = parts.pattern := Glob.pattern_of_tokenize_error hcause
      exact ⟨rfl, rfl, rfl, by rw [hpattern, hcause], parts.toFlags, by rw [hparts, hpattern]⟩
    · cases h

/-- An empty pattern does not read, so in a line that gives a rule no slash counts as two. -/
theorem not_sharesSlash_of_ofLine {source raw : Text} {line : Int} {r : Rule}
    (h : ofLine source line raw = .ok (some r)) : ¬ Line.SharesSlash (Line.trimmed raw) := by
  intro hshared
  obtain ⟨-, -, -, hparts⟩ := eq_of_ofLine h
  obtain ⟨-, hparse⟩ := Line.ofText?_eq_some_iff.mp hparts
  have hnil : r.glob.pattern = [] := by
    rw [← Line.pattern_parse_of_sharesSlash hshared, hparse]
  have hread := r.glob.tokenize_pattern
  rw [hnil] at hread
  cases hread

/-- A rule is for last segments if there is no slash in its pattern nor in front of it. -/
theorem basenameOnly_iff_of_ofLine {source raw : Text} {line : Int} {r : Rule}
    (h : ofLine source line raw = .ok (some r)) :
    r.basenameOnly = true ↔ r.anchored = false ∧ '/' ∉ r.glob.pattern := by
  obtain ⟨-, -, -, hparts⟩ := eq_of_ofLine h
  obtain ⟨-, hparse⟩ := Line.ofText?_eq_some_iff.mp hparts
  have hbasename := Line.basenameOnly_parse_iff (Line.trimmed raw)
  rw [hparse] at hbasename
  exact hbasename

/--
**A line gives no rule exactly if it is blank or starts with a number sign. Of any other line, cut down
to its trimmed text, the parts of the rule spell all of it; and if the pattern that is left does not
read, the error names that pattern, and the line as it was.**
-/
theorem ofLine_takesApart (source : Text) (line : Int) {core ws : Text} {n : Nat}
    (hws : ∀ c ∈ ws, isBlank c = true) (hcore : ∀ c ∈ core.getLast?, isBlank c = false)
    (hrun : Line.EndsInRun n core) :
    let raw := core ++ ws
    let t := if ws = [] then raw else if n % 2 = 1 then core.dropLast ++ ws.take 1 else core
    (ofLine source line raw = .ok none ↔ (∀ c ∈ raw, isBlank c = true) ∨ raw.head? = some '#') ∧
    (∀ r, ofLine source line raw = .ok (some r) →
      r.source = source ∧ r.line = line ∧ r.raw = raw ∧
        Line.TakesApart t ⟨r.toFlags, r.glob.pattern⟩) ∧
    ∀ e, ofLine source line raw = .error e →
      e.source = source ∧ e.line = line ∧ e.raw = raw ∧
        Glob.tokenize e.cause.pattern = .error e.cause ∧
        ((∃ flags, Line.TakesApart t ⟨flags, e.cause.pattern⟩) ∨
          Line.SharesSlash t ∧ e.cause.pattern = []) := by
  intro raw t
  have htrimmed : Line.trimmed raw = t := Line.trimmed_append_of_endsInRun hws hcore hrun
  refine ⟨?_, ?_, ?_⟩
  · rw [ofLine_eq_ok_none_iff, Line.isSkipped, Bool.or_eq_true, beq_iff_eq, Text.isBlankText,
      List.all_eq_true]
  · intro r hr
    obtain ⟨hsource, hline, hraw, hparts⟩ := eq_of_ofLine hr
    obtain ⟨-, hparse⟩ := Line.ofText?_eq_some_iff.mp hparts
    have hshared := not_sharesSlash_of_ofLine hr
    rw [htrimmed] at hparse hshared
    exact ⟨hsource, hline, hraw, hparse ▸ Line.takesApart_parse hshared⟩
  · intro e he
    obtain ⟨hsource, hline, hraw, hread, flags, hparts⟩ := eq_of_ofLine_error he
    obtain ⟨-, hparse⟩ := Line.ofText?_eq_some_iff.mp hparts
    rw [htrimmed] at hparse
    refine ⟨hsource, hline, hraw, hread, ?_⟩
    by_cases hshared : Line.SharesSlash t
    · have hnil := Line.pattern_parse_of_sharesSlash hshared
      rw [hparse] at hnil
      exact .inr ⟨hshared, hnil⟩
    · exact .inl ⟨flags, hparse ▸ Line.takesApart_parse hshared⟩

/-- Three backslashes, the last of which escapes the first of two blanks, and a hidden mark. -/
theorem ofLine_takesApart_hidden :
    let core := "\\!x/\\\\\\".toList
    let ws := " \t".toList
    let t := "\\!x/\\\\ ".toList
    ((∀ c ∈ ws, isBlank c = true) ∧ (∀ c ∈ core.getLast?, isBlank c = false) ∧
      Line.EndsInRun 3 core) ∧
    ∃ r, ofLine "/r/.aiignore".toList 7 (core ++ ws) = .ok (some r) ∧
      Line.TakesApart t ⟨r.toFlags, r.glob.pattern⟩ := by
  intro core ws t
  have hws : ∀ c ∈ ws, isBlank c = true := List.all_eq_true.mp (by decide)
  have hcore : ∀ c ∈ core.getLast?, isBlank c = false := by
    intro c hc
    have hlast : core.getLast? = some '\\' := by decide
    rw [hlast] at hc
    cases hc
    rfl
  have hrun : Line.EndsInRun 3 core := ⟨"\\!x/".toList, rfl, by decide⟩
  have hrule : ∃ r, ofLine "/r/.aiignore".toList 7 (core ++ ws) = .ok (some r) := by
    obtain ⟨ts, hts⟩ : ∃ ts, Glob.tokenize "!x/\\\\ ".toList = .ok ts := by
      have hread : (Glob.tokenize "!x/\\\\ ".toList).toOption.isSome = true := by decide +kernel
      cases htokens : Glob.tokenize "!x/\\\\ ".toList with
      | error e =>
        rw [htokens] at hread
        cases hread
      | ok ts => exact ⟨ts, rfl⟩
    have hglob := Glob.compile_eq_ok_iff (g := ⟨_, _, hts⟩).mpr ⟨rfl, hts⟩
    have hparts : Line.ofText? (core ++ ws) = some { pattern := "!x/\\\\ ".toList } := by
      decide +kernel
    rw [ofLine, hparts]
    dsimp only
    rw [hglob]
    exact ⟨_, rfl⟩
  obtain ⟨r, hr⟩ := hrule
  exact ⟨⟨hws, hcore, hrun⟩, r, hr, ((ofLine_takesApart _ 7 hws hcore hrun).2.1 r hr).2.2.2⟩

end Rule

end PathIgnore
