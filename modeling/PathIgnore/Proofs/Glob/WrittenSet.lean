import PathIgnore.Proofs.Glob.Search
import PathIgnore.Proofs.Glob.SetText

/-!
# Sets written down

With a backslash in front of every character that it names, a member of a set keeps its meaning
wherever it stands. A set of such members reads back as written, alone and in any text
(`compile_writtenSet`).
-/

namespace PathIgnore.Glob

/-- The text of a member, every character escaped. -/
def Member.spelled : Member → Text
  | single c => ['\\', c]
  | range lo hi => ['\\', lo, '-', '\\', hi]
  | posix k => '[' :: ':' :: (k.name ++ classEnd)

/-- The members of a set with its closing bracket. -/
def writtenMembers (ms : List Member) : Text := ms.flatMap Member.spelled ++ [']']

/-- The text of a set; `mark` stands behind the opening bracket. -/
def writtenSet (mark : Text) (ms : List Member) : Text := '[' :: (mark ++ writtenMembers ms)

variable {mark : Text} {ms : List Member}

/-! ## Members -/

theorem writtenMembers_cons (m : Member) (ms : List Member) :
    writtenMembers (m :: ms) = m.spelled ++ writtenMembers ms := by
  simp [writtenMembers]

theorem Member.head?_spelled (m : Member) :
    m.spelled.head? = some '\\' ∨ m.spelled.head? = some '[' := by
  cases m <;> simp [spelled]

theorem Member.head?_spelled_ne (m : Member) {c : Char} (hc : c ∉ ['\\', '[']) :
    m.spelled.head? ≠ some c := by
  intro h
  rcases m.head?_spelled with hm | hm <;> rw [hm] at h <;> cases h <;> exact hc (by decide)

/-- What follows a member is another member or the closing bracket. -/
theorem head?_writtenMembers_ne (ms : List Member) {c : Char} (hc : c ∉ ['\\', '[', ']']) (x : Text) :
    (writtenMembers ms ++ x).head? ≠ some c := by
  cases ms with
  | nil =>
    intro h
    cases h
    exact hc (by decide)
  | cons m ms =>
    have hm := m.head?_spelled
    have hne : m.spelled ≠ [] := by
      intro h
      rw [h] at hm
      simp at hm
    rw [writtenMembers_cons, List.append_assoc, List.head?_append, List.head?_eq_some_head hne,
      Option.some_or, ← List.head?_eq_some_head hne]
    exact m.head?_spelled_ne fun h => hc (List.mem_append_left [']'] h)

/-- **A member is read in front of anything but a dash.** -/
theorem readsMember_spelled (m : Member) {rest : Text} (h : rest.head? ≠ some '-') :
    ReadsMember rest m.spelled m := by
  cases m with
  | single c =>
    refine .single (.escape c) ?_ ?_
    · rintro ⟨u, heq, -⟩
      cases heq
    · rintro ⟨d, u, rfl, -⟩
      exact h rfl
  | range lo hi => exact .range (.escape lo) (.escape hi) (by simp)
  | posix k => exact .posix k

theorem readsMembers_written (rest : Text) (ms : List Member) :
    ReadsMembers rest (writtenMembers ms) ms := by
  induction ms with
  | nil => exact .close
  | cons m ms ih =>
    rw [writtenMembers_cons]
    exact .member (readsMember_spelled m (head?_writtenMembers_ne ms (by decide) rest))
      (m.head?_spelled_ne (by decide)) ih

/-! ## Sets -/

/-- The mark is read as one, and a member never is. -/
theorem afterNegation_mark (hmark : mark ∈ [[], ['^'], ['!']]) (ms : List Member) :
    afterNegation (mark ++ writtenMembers ms) = writtenMembers ms ∧
      (((mark ++ writtenMembers ms).head? = some '^' ∨ (mark ++ writtenMembers ms).head? = some '!') ↔
        mark ≠ []) := by
  have hhead (c : Char) (hc : c ∉ ['\\', '[', ']']) : (writtenMembers ms).head? ≠ some c := by
    have h := head?_writtenMembers_ne ms hc []
    rwa [List.append_nil] at h
  simp only [List.mem_cons, List.not_mem_nil, or_false] at hmark
  rcases hmark with rfl | rfl | rfl
  · have hno : ¬ ((writtenMembers ms).head? = some '^' ∨ (writtenMembers ms).head? = some '!') :=
      not_or.mpr ⟨hhead '^' (by decide), hhead '!' (by decide)⟩
    rw [List.nil_append, afterNegation, if_neg hno]
    exact ⟨rfl, iff_of_false hno (not_not.mpr rfl)⟩
  · exact ⟨rfl, iff_of_true (.inl rfl) (List.cons_ne_nil _ _)⟩
  · exact ⟨rfl, iff_of_true (.inr rfl) (List.cons_ne_nil _ _)⟩

/-- **A set is read where it is written**, in front of any text. -/
theorem readAtom_writtenSet (hmark : mark ∈ [[], ['^'], ['!']]) (hms : ms ≠ []) (rest : Text) :
    readAtom '[' (mark ++ writtenMembers ms ++ rest) =
      .ok (.bracket (writtenSet mark ms) ⟨mark ≠ [], ms⟩, rest) := by
  obtain ⟨hafter, hsign⟩ := afterNegation_mark hmark ms
  have hbody : mark ++ writtenMembers ms ≠ [] := by simp [writtenMembers]
  refine readAtom_append_of_readSet ((readSet_append_eq_ok_iff hbody).mpr ⟨?_, hms, ?_⟩)
  · exact (decide_eq_decide.mpr hsign).symm
  · rw [hafter]
    exact readsMembers_written rest ms

theorem tokenize_writtenSet (hmark : mark ∈ [[], ['^'], ['!']]) (hms : ms ≠ []) :
    tokenize (writtenSet mark ms) = .ok [.bracket (writtenSet mark ms) ⟨mark ≠ [], ms⟩] := by
  have hatom := readAtom_writtenSet hmark hms []
  rw [List.append_nil] at hatom
  have hsegment : readSegment (writtenSet mark ms) =
      .ok ([.bracket (writtenSet mark ms) ⟨mark ≠ [], ms⟩], []) := by
    rw [writtenSet, readSegment_of_ok (by decide) hatom, readSegment]
    rfl
  have hne : writtenSet mark ms ≠ [] := List.cons_ne_nil _ _
  have hhead {c : Char} (hc : c ≠ '[') : (writtenSet mark ms).head? ≠ some c :=
    fun h => hc (Option.some.inj h).symm
  rw [tokenize_eq_ok_iff, readPattern_of_head? hne (hhead (by decide))]
  exact readSegments_of_last (afterGlobstar?_eq_none (hhead (by decide))) (List.cons_ne_nil _ _)
    hsegment

/-- A set takes a character exactly if a member covers it, or if none does and the set is negated. -/
theorem mem_language_bracket_iff {source s : Text} {set : CharSet} :
    s ∈ language [.bracket source set] ↔ ∃ c, s = [c] ∧ c ≠ '/' ∧
      ((∃ m ∈ set.members, m.covers c = true) ↔ set.negated = false) := by
  rw [language, List.map_singleton, List.prod_singleton]
  show (∃ c, set.Holds c ∧ s = [c]) ↔ _
  refine exists_congr fun c => ?_
  rw [CharSet.Holds, ← CharSet.any_covers_iff, List.any_eq_true, and_comm]

/--
**A set reads back as it was written, and takes what its members cover.** Whatever stands around it in
a text, it is read up to its closing bracket.
-/
theorem compile_writtenSet (hmark : mark ∈ [[], ['^'], ['!']]) (hms : ms ≠ []) :
    let written := writtenSet mark ms
    let set : CharSet := ⟨mark ≠ [], ms⟩
    (∃ g, compile written = .ok g ∧ g.tokens = [.bracket written set] ∧
      ∀ s, g.accepts s = true ↔ ∃ c, s = [c] ∧ c ≠ '/' ∧
        ((∃ m ∈ ms, m.covers c = true) ↔ mark = [])) ∧
    ∀ u v : Text, ∃ r, (u ++ written ++ v).drop u.length = '[' :: r ∧
      readAtom '[' r = .ok (.bracket written set, v) ∧
      (u ++ written ++ v).drop (u.length + written.length) = v := by
  intro written set
  refine ⟨?_, fun u v => ?_⟩
  · have hread := tokenize_writtenSet hmark hms
    refine ⟨⟨_, _, hread⟩, compile_eq_ok_iff.mpr ⟨rfl, hread⟩, rfl, fun s => ?_⟩
    have hsign : decide (mark ≠ []) = false ↔ mark = [] := by simp
    rw [accepts_iff_mem_language, mem_language_bracket_iff]
    simp only [hsign]
  · refine ⟨mark ++ writtenMembers ms ++ v, ?_, readAtom_writtenSet hmark hms v, ?_⟩
    · rw [List.append_assoc, List.drop_left]
      rfl
    · rw [← List.length_append, List.drop_left]

/-- Members that mean something else without the backslash, a reversed range among them. -/
theorem compile_writtenSet_specials :
    let mark := ['!']
    let ms : List Member := [.single ']', .single '^', .range 'z' '-', .posix .digit, .single '[',
      .single ':', .single '\\', .single '/']
    let written := "[!\\]\\^\\z-\\-[:digit:]\\[\\:\\\\\\/]".toList
    (mark ∈ [[], ['^'], ['!']] ∧ ms ≠ [] ∧ writtenSet mark ms = written) ∧
    (∃ g, compile written = .ok g ∧ g.tokens = [.bracket written ⟨true, ms⟩] ∧
      ∀ s, g.accepts s = true ↔ ∃ c, s = [c] ∧ c ≠ '/' ∧
        ((∃ m ∈ ms, m.covers c = true) ↔ mark = [])) ∧
    ∀ u v : Text, ∃ r, (u ++ written ++ v).drop u.length = '[' :: r ∧
      readAtom '[' r = .ok (.bracket written ⟨true, ms⟩, v) ∧
      (u ++ written ++ v).drop (u.length + written.length) = v := by
  intro mark ms written
  have hmark : mark ∈ [[], ['^'], ['!']] := by decide
  have hms : ms ≠ [] := List.cons_ne_nil _ _
  have hwritten : writtenSet mark ms = written := by decide
  have hread := compile_writtenSet hmark hms
  rw [hwritten] at hread
  exact ⟨⟨hmark, hms, hwritten⟩, hread⟩

end PathIgnore.Glob
