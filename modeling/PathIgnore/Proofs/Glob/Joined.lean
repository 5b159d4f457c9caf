import PathIgnore.Proofs.Glob.OpenClass
import PathIgnore.Proofs.Glob.Search

/-!
# Patterns joined by a slash

Two patterns with a slash between them are the tokens of the first, a separator and the tokens of the
second, and take what the first takes, a slash and what the second takes. The first must not end in a
slash or in a double star that takes everything, and the second must not start with a slash.

There is one exception: a set of the first may leave a class open, and the second may end one. Each
pattern then reads by itself, but the two together do not (`joins_unless_class_open`).
-/

namespace PathIgnore.Glob

variable {q : Text}

/-! ## What is left unread -/

theorem eq_of_cutAtClassEnd {t name s : Text} (h : cutAtClassEnd t = some (name, s)) :
    t = name ++ ':' :: ']' :: s := by
  induction t generalizing name with
  | nil => cases h
  | cons c r ih =>
    rw [cutAtClassEnd] at h
    split at h
    · next hend =>
      obtain ⟨rfl, hhead⟩ := hend
      cases h
      cases r with
      | nil => cases hhead
      | cons d r =>
        cases hhead
        rfl
    · obtain ⟨⟨n, u⟩, hcut, heq⟩ := Option.map_eq_some_iff.mp h
      cases heq
      rw [ih hcut]
      rfl

theorem isSuffix_of_readPlain {c d : Char} {r s : Text} (h : readPlain c r = .ok (d, s)) :
    s <:+ r := by
  unfold readPlain at h
  split at h
  · cases r with
    | nil => cases h
    | cons e r =>
      cases h
      exact List.suffix_cons _ _
  · cases h
    exact List.suffix_rfl

theorem isSuffix_of_readHigh {lo : Char} {u s : Text} {m : Member}
    (h : readHigh lo u = .ok (m, s)) : s <:+ u := by
  unfold readHigh at h
  split at h
  · split at h
    · cases h
      exact List.suffix_rfl
    · split at h
      · cases h
      · next hhi =>
        cases h
        exact (isSuffix_of_readPlain hhi).trans ⟨['-', _], rfl⟩
  · cases h
    exact List.suffix_rfl

theorem isSuffix_of_readMember {c : Char} {r s : Text} {m : Member}
    (h : readMember c r = .ok (m, s)) : s <:+ r := by
  cases hclass : className? c r with
  | some found =>
    obtain ⟨name, u⟩ := found
    rw [readMember, hclass] at h
    dsimp only at h
    split at h
    · cases h
      unfold className? at hclass
      split at hclass
      · refine List.IsSuffix.trans ?_ (List.tail_suffix r)
        rw [eq_of_cutAtClassEnd hclass]
        exact ⟨name ++ [':', ']'], by simp⟩
      · cases hclass
    · cases h
  | none =>
    rw [readMember_of_className? hclass] at h
    split at h
    · cases h
    · next hplain => exact (isSuffix_of_readHigh h).trans (isSuffix_of_readPlain hplain)

theorem isSuffix_of_readMembers {opening : Text} {isFirst : Bool} {t s : Text} {ms : List Member}
    (h : readMembers opening isFirst t = .ok (ms, s)) : s <:+ t := by
  fun_induction readMembers opening isFirst t generalizing ms s with
  | case1 => cases h
  | case2 => cases h
  | case3 =>
    cases h
    exact List.suffix_cons _ _
  | case4 => cases h
  | case5 => cases h
  | case6 b c r _ m u hmember ms' v hrest ih =>
    cases h
    exact ((ih hrest).trans (isSuffix_of_readMember hmember)).trans (List.suffix_cons _ _)

theorem isSuffix_of_readSet {r s : Text} {set : CharSet} (h : readSet r = .ok (set, s)) :
    s <:+ r := by
  rw [readSet_eq] at h
  cases hmembers : readMembers ('[' :: r) true (afterNegation r) with
  | error e =>
    rw [hmembers] at h
    cases h
  | ok found =>
    rw [hmembers] at h
    cases h
    refine (isSuffix_of_readMembers hmembers).trans ?_
    unfold afterNegation
    split
    · exact List.tail_suffix r
    · exact List.suffix_rfl

theorem isSuffix_of_readAtom {c : Char} {r s : Text} {t : Token}
    (h : readAtom c r = .ok (t, s)) : s <:+ r := by
  unfold readAtom at h
  split at h
  · cases h
    exact List.suffix_rfl
  · split at h
    · cases h
      exact List.suffix_rfl
    · split at h
      · split at h
        · cases h
        · next hset =>
          cases h
          exact isSuffix_of_readSet hset
      · split at h
        · cases h
        · next hplain =>
          cases h
          exact isSuffix_of_readPlain hplain

/-- **A segment leaves an end of the text.** -/
theorem isSuffix_of_readSegment {t s : Text} {ts : List Token} (h : readSegment t = .ok (ts, s)) :
    s <:+ t := by
  fun_induction readSegment t generalizing ts s with
  | case1 =>
    cases h
    exact List.suffix_rfl
  | case2 =>
    cases h
    exact List.suffix_rfl
  | case3 => cases h
  | case4 => cases h
  | case5 c r _ a u hatom bs v hrest ih =>
    cases h
    exact ((ih hrest).trans (isSuffix_of_readAtom hatom)).trans (List.suffix_cons _ _)

/-! ## Segments one after the other -/

theorem eq_of_afterGlobstar? {t r : Text} (h : afterGlobstar? t = some r) :
    t = '*' :: '*' :: r ∧ (r = [] ∨ r.head? = some '/') := by
  unfold afterGlobstar? at h
  split at h
  · next a b u =>
    split at h
    · next hstar =>
      obtain ⟨rfl, rfl, hend⟩ := hstar
      cases h
      exact ⟨rfl, hend⟩
    · cases h
  · cases h

theorem afterGlobstar?_eq_none {t : Text} (h : t.head? ≠ some '*') : afterGlobstar? t = none := by
  cases hafter : afterGlobstar? t with
  | none => rfl
  | some r =>
    obtain ⟨rfl, -⟩ := eq_of_afterGlobstar? hafter
    exact absurd rfl h

/-- A double star that is followed by a slash stands alone in its segment. -/
theorem afterGlobstar?_append {t : Text} (ht : t ≠ []) (q : Text) :
    afterGlobstar? (t ++ '/' :: q) = (afterGlobstar? t).map (· ++ '/' :: q) := by
  match t with
  | [] => exact absurd rfl ht
  | [a] => simp [afterGlobstar?]
  | a :: b :: r =>
    have hend : (r ++ '/' :: q = [] ∨ (r ++ '/' :: q).head? = some '/') ↔
        (r = [] ∨ r.head? = some '/') := by
      cases r <;> simp
    simp only [List.cons_append, afterGlobstar?, hend]
    split <;> rfl

theorem readSegments_of_globstar {t r : Text} {d c : Char}
    (h : afterGlobstar? t = some (d :: c :: r)) :
    readSegments t = (readSegments (c :: r)).map (.globstarSlash :: ·) := by
  rw [readSegments]
  split
  · next h' => rw [h] at h'; cases h'
  · next h' => rw [h] at h'; cases h'
  · next h' =>
    rw [h] at h'
    cases h'
    cases readSegments (c :: r) <;> rfl
  · next h' => rw [h] at h'; cases h'

theorem readSegments_of_error {t : Text} {e : Stuck} (hstar : afterGlobstar? t = none)
    (h : readSegment t = .error e) : readSegments t = .error e := by
  rw [readSegments]
  split
  case h_4 =>
    split
    case h_1 => next h' => rw [h] at h'; cases h'; rfl
    all_goals next h' => rw [h] at h'; cases h'
  all_goals next h' => rw [hstar] at h'; cases h'

theorem readSegments_of_last {t : Text} {ts : List Token} (hstar : afterGlobstar? t = none)
    (hts : ts ≠ []) (h : readSegment t = .ok (ts, [])) : readSegments t = .ok ts := by
  rw [readSegments]
  split
  case h_4 =>
    split
    case h_2 =>
      next h' =>
      rw [h] at h'
      cases h'
      exact absurd rfl hts
    case h_3 =>
      next h' =>
      rw [h] at h'
      cases h'
      rfl
    all_goals next h' => rw [h] at h'; cases h'
  all_goals next h' => rw [hstar] at h'; cases h'

theorem readSegments_of_lastSlash {t : Text} {ts : List Token} (hstar : afterGlobstar? t = none)
    (hts : ts ≠ []) (h : readSegment t = .ok (ts, ['/'])) :
    readSegments t = .ok (ts ++ [.separator]) := by
  rw [readSegments]
  split
  case h_4 =>
    split
    case h_2 =>
      next h' =>
      rw [h] at h'
      cases h'
      exact absurd rfl hts
    case h_4 =>
      next h' =>
      rw [h] at h'
      cases h'
      rfl
    all_goals next h' => rw [h] at h'; cases h'
  all_goals next h' => rw [hstar] at h'; cases h'

theorem readSegments_of_segment {t r : Text} {d c : Char} {ts : List Token}
    (hstar : afterGlobstar? t = none) (hts : ts ≠ [])
    (h : readSegment t = .ok (ts, d :: c :: r)) :
    readSegments t = (readSegments (c :: r)).map (ts ++ .separator :: ·) := by
  rw [readSegments]
  split
  case h_4 =>
    split
    case h_2 =>
      next h' =>
      rw [h] at h'
      cases h'
      exact absurd rfl hts
    case h_5 =>
      next h' =>
      rw [h] at h'
      cases h'
      cases readSegments (c :: r) <;> rfl
    all_goals next h' => rw [h] at h'; cases h'
  all_goals next h' => rw [hstar] at h'; cases h'

/-- The ways in which segments read. -/
inductive ReadsAs : Text → List Token → Prop
  /-- A double star that takes everything. -/
  | all : ReadsAs ['*', '*'] [.globstar]
  /-- A double star and a slash at the end. -/
  | allSlash : ReadsAs ['*', '*', '/'] [.globstar, .separator]
  /-- A double star for any number of segments, and segments. -/
  | skip {c : Char} {r : Text} {ts : List Token} (hrest : ReadsAs (c :: r) ts) :
      ReadsAs ('*' :: '*' :: '/' :: c :: r) (.globstarSlash :: ts)
  /-- A segment at the end. -/
  | last {t : Text} {ts : List Token} (hstar : afterGlobstar? t = none) (hts : ts ≠ [])
      (h : readSegment t = .ok (ts, [])) : ReadsAs t ts
  /-- A segment and a slash at the end. -/
  | lastSlash {t : Text} {ts : List Token} (hstar : afterGlobstar? t = none) (hts : ts ≠ [])
      (h : readSegment t = .ok (ts, ['/'])) : ReadsAs t (ts ++ [.separator])
  /-- A segment, a slash, and segments. -/
  | next {t : Text} {c : Char} {r : Text} {ts us : List Token} (hstar : afterGlobstar? t = none)
      (hts : ts ≠ []) (h : readSegment t = .ok (ts, '/' :: c :: r)) (hrest : ReadsAs (c :: r) us) :
      ReadsAs t (ts ++ .separator :: us)

theorem readsAs_of_readSegments {t : Text} {ts : List Token} (h : readSegments t = .ok ts) :
    ReadsAs t ts := by
  fun_induction readSegments t generalizing ts with
  | case1 t hstar =>
    obtain ⟨rfl, -⟩ := eq_of_afterGlobstar? hstar
    cases h
    exact .all
  | case2 t c hstar =>
    obtain ⟨rfl, hnil | hslash⟩ := eq_of_afterGlobstar? hstar
    · cases hnil
    · cases hslash
      cases h
      exact .allSlash
  | case3 => cases h
  | case4 t d c r hstar us hrest ih =>
    obtain ⟨rfl, hnil | hslash⟩ := eq_of_afterGlobstar? hstar
    · cases hnil
    · cases hslash
      cases h
      exact .skip (ih hrest)
  | case5 => cases h
  | case6 => cases h
  | case7 t hstar us hus hsegment =>
    cases h
    exact .last hstar hus hsegment
  | case8 t hstar us c hus hsegment =>
    cases h
    obtain hnil | hslash := head?_of_readSegment hsegment
    · cases hnil
    · cases hslash
      exact .lastSlash hstar hus hsegment
  | case9 => cases h
  | case10 t hstar us d c r hus hsegment vs hrest ih =>
    cases h
    obtain hnil | hslash := head?_of_readSegment hsegment
    · cases hnil
    · cases hslash
      exact .next hstar hus hsegment (ih hrest)

/-- What reads in one of the ways is read so. -/
theorem ReadsAs.readSegments_eq {t : Text} {ts : List Token} (h : ReadsAs t ts) :
    readSegments t = .ok ts := by
  induction h with
  | all => decide +kernel
  | allSlash => decide +kernel
  | @skip c r ts hrest ih =>
    rw [readSegments_of_globstar (r := r) (c := c) (d := '/') rfl, ih]
    rfl
  | last hstar hts h => exact readSegments_of_last hstar hts h
  | lastSlash hstar hts h => exact readSegments_of_lastSlash hstar hts h
  | next hstar hts h hrest ih =>
    rw [readSegments_of_segment hstar hts h, ih]
    rfl

theorem ReadsAs.ne_nil {t : Text} {ts : List Token} (h : ReadsAs t ts) : t ≠ [] ∧ ts ≠ [] := by
  have hempty : ∀ {us : List Token} {s : Text}, us ≠ [] → readSegment t = .ok (us, s) → t ≠ [] := by
    rintro us s hus hsegment rfl
    rw [readSegment] at hsegment
    cases hsegment
    exact hus rfl
  cases h with
  | all | allSlash | skip => simp
  | last hstar hts h => exact ⟨hempty hts h, hts⟩
  | lastSlash hstar hts h => exact ⟨hempty hts h, by simp⟩
  | next hstar hts h hrest => exact ⟨hempty hts h, by simp⟩

/-- No pattern that reads without the slash in front starts with one. -/
theorem ReadsAs.head?_text_ne {t : Text} {ts : List Token} (h : ReadsAs t ts) :
    t.head? ≠ some '/' := by
  have hsegment {us : List Token} {s : Text} (hus : us ≠ []) (h : readSegment t = .ok (us, s)) :
      t.head? ≠ some '/' := by
    intro hhead
    obtain ⟨r, rfl⟩ := List.head?_eq_some_iff.mp hhead
    rw [readSegment, if_pos rfl] at h
    cases h
    exact hus rfl
  cases h with
  | all | allSlash | skip => simp
  | last hstar hts h => exact hsegment hts h
  | lastSlash hstar hts h => exact hsegment hts h
  | next hstar hts h hrest => exact hsegment hts h

theorem getLast?_cons_of_ne_nil {α : Type} {a : α} {l : List α} (h : l ≠ []) :
    (a :: l).getLast? = l.getLast? :=
  List.getLast?_append_of_ne_nil [a] h

/-- What a segment leaves unread ends as the text does. -/
theorem getLast?_of_readSegment {t s : Text} {c : Char} {ts : List Token}
    (h : readSegment t = .ok (ts, '/' :: c :: s)) : t.getLast? = (c :: s).getLast? := by
  obtain ⟨u, rfl⟩ := isSuffix_of_readSegment h
  rw [List.getLast?_append, List.getLast?_cons_cons]
  cases hlast : (c :: s).getLast? with
  | none => simp at hlast
  | some d => rfl

/-- A double star and a slash are no set. -/
theorem leavesOpen_globstar_iff {t : Text} :
    LeavesOpen ('*' :: '*' :: '/' :: t) ↔ LeavesOpen t := by
  rw [leavesOpen_star_iff, leavesOpen_star_iff, leavesOpen_slash_iff]

/-- What is left open in the unread text is left open in the text. -/
theorem leavesOpen_of_readSegment {t s : Text} {ts : List Token} (h : readSegment t = .ok (ts, s))
    (hs : LeavesOpen s) : LeavesOpen t := by
  fun_induction readSegment t generalizing ts s with
  | case1 =>
    cases h
    exact hs
  | case2 =>
    cases h
    exact hs
  | case3 => cases h
  | case4 => cases h
  | case5 c r _ a u hatom bs v hrest ih =>
    cases h
    exact .later hatom (ih hrest hs)

/-- **Segments read the same when a slash and further segments follow**, unless a class is left open and
ended there. -/
theorem ReadsAs.append {t : Text} {ts us : List Token} (h : ReadsAs t ts)
    (hend : t.getLast? ≠ some '/') (hlast : ts.getLast? ≠ some .globstar)
    (hq : readSegments q = .ok us) (hclosed : LeavesOpen t → ¬ classEnd <:+: q) :
    readSegments (t ++ '/' :: q) = .ok (ts ++ .separator :: us) := by
  obtain ⟨hne, -⟩ := h.ne_nil
  induction h with
  | all => exact absurd rfl hlast
  | allSlash => exact absurd rfl hend
  | @skip c r ts hrest ih =>
    obtain ⟨-, hts⟩ := hrest.ne_nil
    rw [getLast?_cons_of_ne_nil hts] at hlast
    have hnext := ih (by simpa using hend) hlast
      (fun hs => hclosed (leavesOpen_globstar_iff.mpr hs)) (by simp)
    show readSegments ('*' :: '*' :: '/' :: c :: (r ++ '/' :: q)) = _
    rw [readSegments_of_globstar (r := r ++ '/' :: q) (c := c) (d := '/') rfl, ← List.cons_append,
      hnext]
    rfl
  | @last t ts hstar hts hsegment =>
    have hread := readSegment_append hsegment hclosed
    obtain ⟨hqne, -⟩ := (readsAs_of_readSegments hq).ne_nil
    obtain ⟨c, r, rfl⟩ := List.exists_cons_of_ne_nil hqne
    have hstar' : afterGlobstar? (t ++ '/' :: c :: r) = none := by
      rw [afterGlobstar?_append hne, hstar]
      rfl
    rw [readSegments_of_segment hstar' hts hread, hq]
    rfl
  | @lastSlash t ts hstar hts hsegment =>
    obtain ⟨u, rfl⟩ := isSuffix_of_readSegment hsegment
    exact absurd List.getLast?_concat hend
  | @next t c r ts vs hstar hts hsegment hrest ih =>
    have hread := readSegment_append hsegment hclosed
    obtain ⟨-, hvs⟩ := hrest.ne_nil
    have hstar' : afterGlobstar? (t ++ '/' :: q) = none := by
      rw [afterGlobstar?_append hne, hstar]
      rfl
    rw [List.getLast?_append_of_ne_nil _ (List.cons_ne_nil _ _), getLast?_cons_of_ne_nil hvs] at hlast
    have hnext := ih (by rwa [← getLast?_of_readSegment hsegment]) hlast
      (fun hs => hclosed (leavesOpen_of_readSegment hsegment (leavesOpen_slash_iff.mpr hs))) (by simp)
    rw [readSegments_of_segment (c := c) (r := r ++ '/' :: q) hstar' hts hread, ← List.cons_append,
      hnext]
    simp [Except.map]

/-- **Where a class is left open and ended behind the slash, the segments do not read.** -/
theorem ReadsAs.refused {t : Text} {ts : List Token} (h : ReadsAs t ts)
    (hend : t.getLast? ≠ some '/') (hopen : LeavesOpen t) (hq : classEnd <:+: q) :
    ∃ e, readSegments (t ++ '/' :: q) = .error e := by
  obtain ⟨hne, -⟩ := h.ne_nil
  induction h with
  | all =>
    rw [leavesOpen_star_iff, leavesOpen_star_iff] at hopen
    exact absurd hopen not_leavesOpen_nil
  | allSlash => exact absurd rfl hend
  | @skip c r ts hrest ih =>
    obtain ⟨e, he⟩ := ih (by simpa using hend) (leavesOpen_globstar_iff.mp hopen) (by simp)
    refine ⟨e, ?_⟩
    show readSegments ('*' :: '*' :: '/' :: c :: (r ++ '/' :: q)) = _
    rw [readSegments_of_globstar (r := r ++ '/' :: q) (c := c) (d := '/') rfl, ← List.cons_append, he]
    rfl
  | @last t ts hstar hts hsegment =>
    have hstar' : afterGlobstar? (t ++ '/' :: q) = none := by
      rw [afterGlobstar?_append hne, hstar]
      rfl
    rcases readSegment_refused hsegment hopen hq with ⟨e, he⟩ | ⟨hlater, -⟩
    · exact ⟨e, readSegments_of_error hstar' he⟩
    · exact absurd hlater not_leavesOpen_nil
  | @lastSlash t ts hstar hts hsegment =>
    obtain ⟨u, rfl⟩ := isSuffix_of_readSegment hsegment
    exact absurd List.getLast?_concat hend
  | @next t c r ts vs hstar hts hsegment hrest ih =>
    have hstar' : afterGlobstar? (t ++ '/' :: q) = none := by
      rw [afterGlobstar?_append hne, hstar]
      rfl
    rcases readSegment_refused hsegment hopen hq with ⟨e, he⟩ | ⟨hlater, hread⟩
    · exact ⟨e, readSegments_of_error hstar' he⟩
    · obtain ⟨e, he⟩ := ih (by rwa [← getLast?_of_readSegment hsegment])
        (leavesOpen_slash_iff.mp hlater) (by simp)
      refine ⟨e, ?_⟩
      rw [readSegments_of_segment (c := c) (r := r ++ '/' :: q) hstar' hts hread, ← List.cons_append,
        he]
      rfl

/-! ## Patterns -/

theorem readPattern_slash (r : Text) :
    readPattern ('/' :: r) = (readSegments r).map (.separator :: ·) := by
  rw [readPattern, if_pos rfl]
  cases readSegments r <;> rfl

theorem readPattern_of_head? {t : Text} (hne : t ≠ []) (h : t.head? ≠ some '/') :
    readPattern t = readSegments t := by
  obtain ⟨c, r, rfl⟩ := List.exists_cons_of_ne_nil hne
  rw [readPattern, if_neg (by simpa using h)]

/-- The ways in which a pattern reads. -/
theorem readsAs_of_readPattern {p : Text} {ts : List Token} (h : readPattern p = .ok ts) :
    (p.head? ≠ some '/' ∧ ReadsAs p ts) ∨
      ∃ r us, p = '/' :: r ∧ ts = .separator :: us ∧ ReadsAs r us := by
  cases p with
  | nil => cases h
  | cons c r =>
    by_cases hc : c = '/'
    · subst hc
      rw [readPattern_slash] at h
      cases hr : readSegments r with
      | error e =>
        rw [hr] at h
        cases h
      | ok us =>
        rw [hr] at h
        cases h
        exact .inr ⟨r, us, rfl, rfl, readsAs_of_readSegments hr⟩
    · have hhead : (c :: r).head? ≠ some '/' := by simpa using hc
      rw [readPattern_of_head? (by simp) hhead] at h
      exact .inl ⟨hhead, readsAs_of_readSegments h⟩

theorem tokenize_eq_ok_iff {p : Text} {ts : List Token} :
    tokenize p = .ok ts ↔ readPattern p = .ok ts := by
  unfold tokenize
  cases readPattern p with
  | error e => simp [Except.mapError]
  | ok us => simp [Except.mapError]

/-- **A pattern reads the same when a slash and a further pattern follow**, unless a class is left open
and ended there. -/
theorem readPattern_append {p : Text} {ts us : List Token} (h : readPattern p = .ok ts)
    (hend : p.getLast? ≠ some '/') (hlast : ts.getLast? ≠ some .globstar)
    (hq : readSegments q = .ok us) (hclosed : LeavesOpen p → ¬ classEnd <:+: q) :
    readPattern (p ++ '/' :: q) = .ok (ts ++ .separator :: us) := by
  cases p with
  | nil => cases h
  | cons c r =>
    by_cases hc : c = '/'
    · subst hc
      rw [readPattern_slash] at h
      cases hr : readSegments r with
      | error e =>
        rw [hr] at h
        cases h
      | ok vs =>
        rw [hr] at h
        cases h
        have hread := readsAs_of_readSegments hr
        obtain ⟨hne, hvs⟩ := hread.ne_nil
        have hend' : r.getLast? ≠ some '/' := by rwa [getLast?_cons_of_ne_nil hne] at hend
        have hlast' : vs.getLast? ≠ some .globstar := by
          change (Token.separator :: vs).getLast? ≠ _ at hlast
          rwa [getLast?_cons_of_ne_nil hvs] at hlast
        have hnext := hread.append hend' hlast' hq
          fun hs => hclosed (leavesOpen_slash_iff.mpr hs)
        rw [List.cons_append, readPattern_slash, hnext]
        rfl
    · rw [readPattern_of_head? (by simp) (by simpa using hc)] at h
      rw [readPattern_of_head? (by simp) (by simpa using hc)]
      exact (readsAs_of_readSegments h).append hend hlast hq hclosed

theorem readPattern_refused {p : Text} {ts : List Token} (h : readPattern p = .ok ts)
    (hend : p.getLast? ≠ some '/') (hopen : LeavesOpen p) (hq : classEnd <:+: q) :
    ∃ e, readPattern (p ++ '/' :: q) = .error e := by
  cases p with
  | nil => cases h
  | cons c r =>
    by_cases hc : c = '/'
    · subst hc
      rw [readPattern_slash] at h
      cases hr : readSegments r with
      | error e =>
        rw [hr] at h
        cases h
      | ok vs =>
        have hread := readsAs_of_readSegments hr
        have hend' : r.getLast? ≠ some '/' := by rwa [getLast?_cons_of_ne_nil hread.ne_nil.1] at hend
        obtain ⟨e, he⟩ := hread.refused hend' (leavesOpen_slash_iff.mp hopen) hq
        rw [List.cons_append, readPattern_slash, he]
        exact ⟨e, rfl⟩
    · rw [readPattern_of_head? (by simp) (by simpa using hc)] at h
      rw [readPattern_of_head? (by simp) (by simpa using hc)]
      exact (readsAs_of_readSegments h).refused hend hopen hq

/-! ## Globs -/

/-- What is taken is cut at the slash of the separator. -/
theorem mem_language_joined_iff {ts us : List Token} {s : Text} :
    s ∈ language (ts ++ .separator :: us) ↔
      ∃ x y, s = x ++ '/' :: y ∧ x ∈ language ts ∧ y ∈ language us := by
  have hprod : language (ts ++ .separator :: us) =
      language ts * (Token.separator.language * language us) := by
    unfold language
    rw [List.map_append, List.map_cons, List.prod_append, List.prod_cons]
  rw [hprod, Language.mem_mul]
  constructor
  · rintro ⟨x, hx, _, ⟨_, rfl, y, hy, rfl⟩, rfl⟩
    exact ⟨x, y, rfl, hx, hy⟩
  · rintro ⟨x, y, rfl, hx, hy⟩
    exact ⟨x, hx, '/' :: y, ⟨['/'], rfl, y, hy, rfl⟩, rfl⟩

/--
**Two globs with a slash between them are one glob, which takes what the first takes, a slash and what
the second takes. Only if a set of the first leaves a class open and the second ends one, the two
together do not read.**
-/
theorem joins_unless_class_open (g h : Glob) (hend : g.pattern.getLast? ≠ some '/')
    (hlast : g.tokens.getLast? ≠ some .globstar) (hstart : h.pattern.head? ≠ some '/') :
    (LeavesOpen g.pattern ∧ classEnd <:+: h.pattern →
      ∃ e, tokenize (g.pattern ++ '/' :: h.pattern) = .error e) ∧
    (¬ (LeavesOpen g.pattern ∧ classEnd <:+: h.pattern) →
      ∃ k : Glob, k.pattern = g.pattern ++ '/' :: h.pattern ∧
        k.tokens = g.tokens ++ .separator :: h.tokens ∧
        ∀ s, k.accepts s = true ↔
          ∃ x y, s = x ++ '/' :: y ∧ g.accepts x = true ∧ h.accepts y = true) := by
  have hg := tokenize_eq_ok_iff.mp g.tokenize_pattern
  constructor
  · rintro ⟨hopen, hended⟩
    obtain ⟨e, he⟩ := readPattern_refused hg hend hopen hended
    rw [tokenize, he]
    exact ⟨_, rfl⟩
  · intro hclosed
    have hread := tokenize_eq_ok_iff.mp h.tokenize_pattern
    have hne : h.pattern ≠ [] := by
      intro hnil
      rw [hnil] at hread
      cases hread
    rw [readPattern_of_head? hne hstart] at hread
    have hjoined := readPattern_append hg hend hlast hread fun hopen hended => hclosed ⟨hopen, hended⟩
    refine ⟨⟨_, _, tokenize_eq_ok_iff.mpr hjoined⟩, rfl, rfl, fun s => ?_⟩
    simp only [accepts_iff_mem_language, mem_language_joined_iff]

/-- A class may stay open as long as none is ended. -/
theorem joins_unless_class_open_of_not_ended :
    let g : Glob := ⟨"/[a[:]*\\*".toList, [.separator,
      .bracket "[a[:]".toList ⟨false, [.single 'a', .single '[', .single ':']⟩, .star, .literal ['*']],
      by decide +kernel⟩
    let h : Glob := ⟨"**/x:[^\\]]".toList, [.globstarSlash, .literal ['x', ':'],
      .bracket "[^\\]]".toList ⟨true, [.single ']']⟩], by decide +kernel⟩
    (g.pattern.getLast? ≠ some '/' ∧ g.tokens.getLast? ≠ some .globstar ∧
      h.pattern.head? ≠ some '/' ∧ ¬ (LeavesOpen g.pattern ∧ classEnd <:+: h.pattern)) ∧
    ∃ k : Glob, k.pattern = g.pattern ++ '/' :: h.pattern ∧
      k.tokens = g.tokens ++ .separator :: h.tokens ∧
      ∀ s, k.accepts s = true ↔
        ∃ x y, s = x ++ '/' :: y ∧ g.accepts x = true ∧ h.accepts y = true := by
  intro g h
  have hended : ¬ (LeavesOpen g.pattern ∧ classEnd <:+: h.pattern) := by
    rintro ⟨-, h⟩
    revert h
    decide +kernel
  exact ⟨⟨by decide +kernel, by decide +kernel, by decide +kernel, hended⟩,
    (joins_unless_class_open g h (by decide +kernel) (by decide +kernel) (by decide +kernel)).2 hended⟩

/-- **A set that reads by itself reads no more when a `:]` comes in the next segment.** -/
theorem class_open_not_joined :
    let p := "[a[:]".toList
    let q := "x:]".toList
    (tokenize p = .ok [.bracket p ⟨false, [.single 'a', .single '[', .single ':']⟩] ∧
      tokenize q = .ok [.literal q]) ∧
    tokenize (p ++ '/' :: q) = .error ⟨p ++ '/' :: q, .unknownClass "]/x".toList, 2⟩ := by
  decide +kernel

end PathIgnore.Glob
