import PathIgnore.Proofs.Glob.Neighbours
import PathIgnore.Proofs.Glob.SetText
import PathIgnore.Proofs.Rule.Spelling

/-!
# The ends of a pattern

A pattern may have a separator in front and one at its end. Both can be told from its text: a slash comes
first (`Glob.head?_tokens_iff`), or a slash that no backslash escapes comes last
(`Glob.getLast?_tokens_iff`). The escapes of a segment are its own, because no operator and no character
that is read leaves a backslash without what it escapes (`exists_text_of_readSegment`).

A second slash makes an empty segment, and that is refused wherever the text in front reads
(`tokenize_doubled`).
-/

namespace PathIgnore

namespace Line

/-! ## The end of a text -/

/-- Behind an even run of backslashes a text escapes what it escapes by itself. -/
theorem endsInEscape_append {a : Text} (h : endsInEscape a = false) (b : Text) :
    endsInEscape (a ++ b) = endsInEscape b := by
  induction b using List.reverseRecOn with
  | nil => rw [List.append_nil, h]; rfl
  | append_singleton b c ih =>
    rw [← List.append_assoc, endsInEscape_concat, endsInEscape_concat, ih]

theorem endsInSlash_append {a : Text} (h : endsInEscape a = false) {b : Text} (hb : b ≠ []) :
    endsInSlash (a ++ b) = endsInSlash b := by
  unfold endsInSlash
  rw [List.getLast?_append_of_ne_nil _ hb, List.dropLast_append_of_ne_nil hb, endsInEscape_append h]

theorem endsInSlash_of_getLast? {t : Text} (h : t.getLast? ≠ some '/') : endsInSlash t = false := by
  rw [endsInSlash, beq_eq_false_iff_ne.mpr h, Bool.false_and]

/-- What stands in front of a character does not matter to what follows it. -/
theorem endsInSlash_append_cons {c : Char} (hback : c ≠ '\\') (hslash : c ≠ '/') (a b : Text) :
    endsInSlash (a ++ c :: b) = endsInSlash (c :: b) := by
  cases b with
  | nil =>
    rw [endsInSlash_of_getLast? (by simpa using hslash),
      endsInSlash_of_getLast? (by simpa using hslash)]
  | cons d b =>
    have hend (a : Text) : endsInEscape (a ++ [c]) = false :=
      endsInEscape_of_getLast? (by simpa using hback)
    have hbehind (a : Text) : endsInSlash (a ++ c :: d :: b) = endsInSlash (d :: b) := by
      rw [← List.singleton_append, ← List.append_assoc,
        endsInSlash_append (hend a) (List.cons_ne_nil d b)]
    rw [hbehind a, ← hbehind []]
    rfl

end Line

namespace Glob

open Line Language

/-! ## The last token -/

/-- The spelling of a character, a bare slash apart, ends in no escape and in no bare slash. -/
theorem SpellsPlain.ends {t : Text} {c : Char} (h : SpellsPlain t c) (ht : t ≠ ['/']) :
    endsInEscape t = false ∧ endsInSlash t = false := by
  cases h with
  | plain hback =>
    refine ⟨endsInEscape_of_getLast? (by simpa using hback), endsInSlash_of_getLast? ?_⟩
    simpa using ht
  | escape =>
    have hback : endsInEscape ['\\'] = true := by decide
    refine ⟨?_, ?_⟩
    · rw [← List.singleton_append, endsInEscape_concat, hback, Bool.not_true, Bool.and_false]
    · rw [endsInSlash, List.dropLast_cons_cons, List.dropLast_singleton, hback, Bool.not_true,
        Bool.and_false]

/-- What an operator or a character is read from ends in no escape and in no bare slash. -/
theorem exists_text_of_readAtom {c : Char} {r s : Text} {t : Token} (hc : c ≠ '/')
    (h : readAtom c r = .ok (t, s)) :
    ∃ a, c :: r = a ++ s ∧ endsInEscape a = false ∧ endsInSlash a = false := by
  by_cases hopen : c = '['
  · subst hopen
    obtain ⟨body, set, rfl, -, hlast, -⟩ := exists_source_of_readAtom h
    have hend : ('[' :: body).getLast? = some ']' := by
      rw [List.getLast?_cons, hlast]
      rfl
    exact ⟨'[' :: body, rfl, endsInEscape_of_getLast? (by rw [hend]; decide),
      endsInSlash_of_getLast? (by rw [hend]; decide)⟩
  · unfold readAtom at h
    rw [if_neg hopen] at h
    split at h
    · next hstar =>
      cases h
      exact ⟨[c], rfl, by subst hstar; decide, by subst hstar; decide⟩
    · split at h
      · next hany =>
        cases h
        exact ⟨[c], rfl, by subst hany; decide, by subst hany; decide⟩
      · cases hplain : readPlain c r with
        | error e =>
          rw [hplain] at h
          cases h
        | ok found =>
          rw [hplain] at h
          cases h
          obtain ⟨a, heq, ha⟩ := readPlain_eq_ok_iff.mp hplain
          refine ⟨a, heq, ha.ends ?_⟩
          rintro rfl
          cases heq
          exact hc rfl

/-- **A segment ends in front of the slash that follows it, not in one that it escapes.** -/
theorem exists_text_of_readSegment {t s : Text} {ts : List Token} (h : readSegment t = .ok (ts, s)) :
    ∃ z, t = z ++ s ∧ endsInEscape z = false ∧ endsInSlash z = false := by
  fun_induction readSegment t generalizing ts s with
  | case1 =>
    cases h
    exact ⟨[], rfl, rfl, rfl⟩
  | case2 =>
    cases h
    exact ⟨[], rfl, rfl, rfl⟩
  | case3 => cases h
  | case4 => cases h
  | case5 c r hc a u hatom bs v hrest ih =>
    cases h
    obtain ⟨x, heq, hescape, hslash⟩ := exists_text_of_readAtom hc hatom
    obtain ⟨z, rfl, hescape', hslash'⟩ := ih hrest
    refine ⟨x ++ z, by rw [heq, List.append_assoc], ?_, ?_⟩
    · rw [endsInEscape_append hescape, hescape']
    · by_cases hz : z = []
      · rw [hz, List.append_nil, hslash]
      · rw [endsInSlash_append hescape hz, hslash']

theorem endsInSlash_append_slash (a : Text) {b : Text} (hb : b ≠ []) :
    endsInSlash (a ++ '/' :: b) = endsInSlash b := by
  rw [← List.singleton_append, ← List.append_assoc,
    endsInSlash_append (endsInEscape_of_getLast? (by simp)) hb]

/-- **Segments end in a separator if their text ends in a slash that no backslash escapes.** -/
theorem ReadsAs.getLast?_eq_separator_iff {t : Text} {ts : List Token} (h : ReadsAs t ts) :
    ts.getLast? = some .separator ↔ endsInSlash t = true := by
  induction h with
  | all => decide
  | allSlash => decide
  | @skip c r ts hrest ih =>
    obtain ⟨hne, hts⟩ := hrest.ne_nil
    rw [getLast?_cons_of_ne_nil hts, ih]
    exact iff_of_eq (congrArg (· = true) (endsInSlash_append_slash ['*', '*'] hne).symm)
  | @last t ts hstar hts h =>
    obtain ⟨z, rfl, -, hslash⟩ := exists_text_of_readSegment h
    rw [List.append_nil, hslash]
    refine iff_of_false (fun hlast => ?_) Bool.false_ne_true
    exact (isSegment_of_readSegment h).isInSegment _ (List.mem_of_getLast? hlast)
  | @lastSlash t ts hstar hts h =>
    obtain ⟨z, rfl, hescape, -⟩ := exists_text_of_readSegment h
    refine iff_of_true List.getLast?_concat ?_
    rw [endsInSlash_append hescape (List.cons_ne_nil _ _)]
    rfl
  | @next t c r ts us hstar hts h hrest ih =>
    obtain ⟨z, rfl, -, -⟩ := exists_text_of_readSegment h
    obtain ⟨hne, hus⟩ := hrest.ne_nil
    rw [List.getLast?_append_of_ne_nil _ (List.cons_ne_nil _ _), getLast?_cons_of_ne_nil hus, ih,
      endsInSlash_append_slash z hne]

variable (g : Glob)

theorem pattern_ne_nil : g.pattern ≠ [] := by
  intro hnil
  have hread := g.tokenize_pattern
  rw [hnil] at hread
  cases hread

theorem head?_tokens_iff : g.tokens.head? = some .separator ↔ g.pattern.head? = some '/' := by
  rcases readsAs_of_readPattern (tokenize_eq_ok_iff.mp g.tokenize_pattern) with
    ⟨hhead, hread⟩ | ⟨r, us, hpattern, htokens, -⟩
  · exact iff_of_false hread.head?_ne hhead
  · rw [hpattern, htokens]
    exact iff_of_true rfl rfl

theorem getLast?_tokens_iff :
    g.tokens.getLast? = some .separator ↔ endsInSlash g.pattern = true := by
  rcases readsAs_of_readPattern (tokenize_eq_ok_iff.mp g.tokenize_pattern) with
    ⟨-, hread⟩ | ⟨r, us, hpattern, htokens, hread⟩
  · exact hread.getLast?_eq_separator_iff
  · obtain ⟨hne, hus⟩ := hread.ne_nil
    rw [hpattern, htokens, getLast?_cons_of_ne_nil hus, hread.getLast?_eq_separator_iff]
    exact iff_of_eq (congrArg (· = true) (endsInSlash_append_slash [] hne).symm)

/-- What a glob takes starts with a slash if its tokens start with a separator. -/
theorem head?_of_accepts {s : Text} (h : g.tokens.head? = some .separator)
    (hs : g.accepts s = true) : s.head? = some '/' := by
  obtain ⟨ts, hts⟩ := List.head?_eq_some_iff.mp h
  rw [accepts_iff_mem_language, hts] at hs
  rw [← List.nil_append (Token.separator :: ts)] at hs
  obtain ⟨x, y, rfl, hx, -⟩ := mem_language_joined_iff.mp hs
  obtain rfl : x = [] := (mem_one x).mp hx
  rfl

theorem getLast?_of_accepts {s : Text} (h : g.tokens.getLast? = some .separator)
    (hs : g.accepts s = true) : s.getLast? = some '/' := by
  obtain ⟨ts, hts⟩ := List.getLast?_eq_some_iff.mp h
  rw [accepts_iff_mem_language, hts] at hs
  obtain ⟨x, y, rfl, -, hy⟩ := mem_language_joined_iff.mp hs
  obtain rfl : y = [] := (mem_one y).mp hy
  exact List.getLast?_concat

/-! ## Empty segments -/

variable {q : Text}

/-- No segment is empty. -/
theorem readSegments_slash (q : Text) : readSegments ('/' :: q) = .error ⟨.emptySegment, '/' :: q⟩ := by
  have hsegment : readSegment ('/' :: q) = .ok ([], '/' :: q) := by rw [readSegment, if_pos rfl]
  have hstar : afterGlobstar? ('/' :: q) = none := afterGlobstar?_eq_none (by simp)
  rw [readSegments]
  split
  case h_4 =>
    split
    case h_2 => rfl
    case h_1 | h_3 => next h => rw [hsegment] at h; cases h
    case h_4 | h_5 => next h => rw [hsegment] at h; cases h; contradiction
  all_goals next h => rw [hstar] at h; cases h

/-- Behind a slash, what follows a segment is reached or an open class is ended. -/
theorem readSegment_append_cases {t s : Text} {ts : List Token} (h : readSegment t = .ok (ts, s)) :
    (∃ e, readSegment (t ++ '/' :: q) = .error e) ∨
      readSegment (t ++ '/' :: q) = .ok (ts, s ++ '/' :: q) := by
  by_cases hclosed : LeavesOpen t → ¬ classEnd <:+: q
  · exact .inr (readSegment_append h hclosed)
  · rw [Classical.not_imp, not_not] at hclosed
    exact (readSegment_refused h hclosed.1 hclosed.2).imp_right And.right

/-- What is refused behind a segment is refused with the segment in front. -/
theorem refused_of_segment {t s r : Text} {d c : Char} {ts : List Token} (hne : t ≠ [])
    (hstar : afterGlobstar? t = none) (hts : ts ≠ []) (h : readSegment t = .ok (ts, s))
    (hrest : s ++ '/' :: q = d :: c :: r) (hrefused : ∃ e, readSegments (c :: r) = .error e) :
    ∃ e, readSegments (t ++ '/' :: q) = .error e := by
  have hstar' : afterGlobstar? (t ++ '/' :: q) = none := by
    rw [afterGlobstar?_append hne, hstar]
    rfl
  rcases readSegment_append_cases h with ⟨e, he⟩ | hread
  · exact ⟨e, readSegments_of_error hstar' he⟩
  · obtain ⟨e, he⟩ := hrefused
    rw [hrest] at hread
    rw [readSegments_of_segment hstar' hts hread, he]
    exact ⟨e, rfl⟩

/-- **Behind segments a doubled slash is refused.** -/
theorem ReadsAs.doubled_refused {t : Text} {ts : List Token} (h : ReadsAs t ts) (q : Text) :
    ∃ e, readSegments (t ++ '/' :: '/' :: q) = .error e := by
  obtain ⟨hne, -⟩ := h.ne_nil
  have hglobstar {c : Char} {r : Text} (h : ∃ e, readSegments (c :: r) = .error e) :
      ∃ e, readSegments ('*' :: '*' :: '/' :: c :: r) = .error e := by
    obtain ⟨e, he⟩ := h
    rw [readSegments_of_globstar (r := r) (c := c) (d := '/') rfl, he]
    exact ⟨e, rfl⟩
  induction h with
  | all => exact hglobstar ⟨_, readSegments_slash q⟩
  | allSlash => exact hglobstar ⟨_, readSegments_slash ('/' :: q)⟩
  | skip hrest ih => exact hglobstar (ih (List.cons_ne_nil _ _))
  | last hstar hts h => exact refused_of_segment hne hstar hts h rfl ⟨_, readSegments_slash q⟩
  | lastSlash hstar hts h =>
    exact refused_of_segment hne hstar hts h rfl ⟨_, readSegments_slash ('/' :: q)⟩
  | next hstar hts h hrest ih =>
    exact refused_of_segment hne hstar hts h rfl (ih (List.cons_ne_nil _ _))

/-- **A doubled slash behind a pattern, or with nothing in front, is refused.** -/
theorem tokenize_doubled {p : Text} (hp : p = [] ∨ ∃ ts, tokenize p = .ok ts) (q : Text) :
    ∃ e, tokenize (p ++ '/' :: '/' :: q) = .error e := by
  suffices h : ∃ e, readPattern (p ++ '/' :: '/' :: q) = .error e by
    obtain ⟨e, he⟩ := h
    rw [tokenize, he]
    exact ⟨_, rfl⟩
  rcases hp with rfl | ⟨ts, hts⟩
  · rw [List.nil_append, readPattern_slash, readSegments_slash]
    exact ⟨_, rfl⟩
  · rcases readsAs_of_readPattern (tokenize_eq_ok_iff.mp hts) with
      ⟨hhead, hread⟩ | ⟨r, us, rfl, -, hread⟩
    · have hhead' : (p ++ '/' :: '/' :: q).head? ≠ some '/' := by
        rwa [List.head?_append_of_ne_nil _ hread.ne_nil.1]
      rw [readPattern_of_head? (by simp) hhead']
      exact hread.doubled_refused q
    · obtain ⟨e, he⟩ := hread.doubled_refused q
      rw [List.cons_append, readPattern_slash, he]
      exact ⟨e, rfl⟩

end Glob

end PathIgnore
