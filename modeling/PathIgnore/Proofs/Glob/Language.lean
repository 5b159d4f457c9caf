import Mathlib.Computability.Language
import PathIgnore.Glob.Basic

/-!
# The language of a pattern

What a pattern means, said without a search. Every token has a language, and a pattern takes a text
that can be cut into one piece for each token, in order, each in the language of its token
(`Glob.language`).

The search works on nodes, so they get languages as well.

* `Node.mem_stops_iff`: a node stops where a word of its language ends.
* `chainLanguage_chain`: joining neighbouring literals and separators keeps the language of the pattern.
* `mem_chainLanguage_cons_iff`: what a chain takes, one node at a time.
-/

namespace PathIgnore.Glob

open Language Computability

/-! ## Languages of tokens -/

/-- A character that a bracket set stands for: no slash, and covered by one of the single characters,
ranges and classes of the set or, if the set is negated, by none. -/
def CharSet.Holds (s : CharSet) (c : Char) : Prop :=
  c ≠ '/' ∧ ((c ∈ s.singles ∨ (∃ r ∈ s.ranges, r.1 ≤ c ∧ c ≤ r.2) ∨
    ∃ k ∈ s.classes, k.contains c = true) ↔ s.negated = false)

/-- The texts of one character with a property. -/
def oneCharacter (p : Char → Prop) : Language Char := {s | ∃ c, p c ∧ s = [c]}

/-- A segment that is not empty, with its slash. -/
def wholeSegment : Language Char := {s | ∃ t, t ≠ [] ∧ '/' ∉ t ∧ s = t ++ ['/']}

/-- The texts within one segment. -/
def slashFree : Language Char := {s | '/' ∉ s}

/-- The texts that a token stands for. -/
def Token.language : Token → Language Char
  | literal w => {w}
  | separator => {['/']}
  | star => slashFree
  | anyChar => oneCharacter (· ≠ '/')
  | bracket _ set => oneCharacter set.Holds
  | globstarSlash => wholeSegment∗
  | globstar => ⊤

/-- The texts that can be cut into pieces of the tokens' languages. -/
def language (ts : List Token) : Language Char := (ts.map Token.language).prod

theorem mem_slashFree {s : Text} : s ∈ slashFree ↔ '/' ∉ s := Iff.rfl

/-- **A text is in a product of languages if it is cut into pieces, one from each.** -/
theorem mem_prod_iff {ls : List (Language Char)} {s : Text} :
    s ∈ ls.prod ↔ ∃ pieces : List Text, pieces.flatten = s ∧ List.Forall₂ (· ∈ ·) pieces ls := by
  induction ls generalizing s with
  | nil =>
    rw [List.prod_nil, mem_one]
    constructor
    · rintro rfl
      exact ⟨[], rfl, .nil⟩
    · rintro ⟨pieces, rfl, h⟩
      cases h
      rfl
  | cons l ls ih =>
    rw [List.prod_cons, mem_mul]
    constructor
    · rintro ⟨a, ha, b, hb, rfl⟩
      obtain ⟨pieces, rfl, h⟩ := ih.mp hb
      exact ⟨a :: pieces, rfl, .cons ha h⟩
    · rintro ⟨pieces, rfl, h⟩
      cases h with
      | cons ha h => exact ⟨_, ha, _, ih.mpr ⟨_, rfl, h⟩, rfl⟩

/-! ## Bracket sets -/

theorem CharSet.mem_singles {s : CharSet} {c : Char} : c ∈ s.singles ↔ .single c ∈ s.members := by
  rw [singles, List.mem_mergeSort, List.mem_eraseDups, List.mem_filterMap]
  constructor
  · rintro ⟨m, hm, h⟩
    cases m <;> simp_all
  · intro h
    exact ⟨_, h, rfl⟩

theorem CharSet.mem_ranges {s : CharSet} {r : Char × Char} :
    r ∈ s.ranges ↔ .range r.1 r.2 ∈ s.members := by
  rw [ranges, List.mem_filterMap]
  constructor
  · rintro ⟨m, hm, h⟩
    cases m <;> simp_all
    subst h
    exact hm
  · intro h
    exact ⟨_, h, rfl⟩

theorem CharSet.mem_classes {s : CharSet} {k : CharClass} :
    k ∈ s.classes ↔ .posix k ∈ s.members := by
  rw [classes, List.mem_filterMap]
  constructor
  · rintro ⟨m, hm, h⟩
    cases m <;> simp_all
  · intro h
    exact ⟨_, h, rfl⟩

/-- Sorting the members by their kinds loses none. -/
theorem CharSet.any_covers_iff (s : CharSet) (c : Char) :
    s.members.any (·.covers c) = true ↔
      c ∈ s.singles ∨ (∃ r ∈ s.ranges, r.1 ≤ c ∧ c ≤ r.2) ∨ ∃ k ∈ s.classes, k.contains c = true := by
  rw [List.any_eq_true, Member.exists_covers_iff]
  simp only [mem_singles, mem_ranges, mem_classes, Prod.exists]

theorem CharSet.accepts_iff_holds {s : CharSet} {c : Char} : s.accepts c = true ↔ s.Holds c := by
  unfold accepts Holds
  rw [← any_covers_iff]
  cases s.members.any (·.covers c) <;> cases s.negated <;> simp

/-! ## Nodes -/

/-- The texts that a node stands for. -/
def Node.language : Node → Language Char
  | run t => {t}
  | anyChar => oneCharacter (· ≠ '/')
  | oneOf set => oneCharacter set.Holds
  | star => slashFree
  | segments => wholeSegment∗
  | rest => ⊤

/-- The texts that a chain of nodes takes. -/
def chainLanguage (ns : List Node) : Language Char := (ns.map Node.language).prod

@[simp] theorem mem_chainLanguage_nil {s : Text} : s ∈ chainLanguage [] ↔ s = [] := Iff.rfl

theorem chainLanguage_cons (n : Node) (ns : List Node) :
    chainLanguage (n :: ns) = n.language * chainLanguage ns := by
  rw [chainLanguage, List.map_cons, List.prod_cons, chainLanguage]

theorem singleton_mul_singleton (t u : Text) :
    ({t} : Language Char) * {u} = {t ++ u} := by
  ext s
  rw [mem_mul]
  constructor
  · rintro ⟨a, rfl, b, rfl, rfl⟩
    rfl
  · rintro rfl
    exact ⟨t, rfl, u, rfl, rfl⟩

/-- Joining a run to the run that follows takes the same texts. -/
theorem chainLanguage_consRun (t : Text) (ns : List Node) :
    chainLanguage (Node.consRun t ns) = {t} * chainLanguage ns := by
  unfold Node.consRun
  split
  · rw [chainLanguage_cons, chainLanguage_cons, ← mul_assoc]
    congr 1
    exact (singleton_mul_singleton _ _).symm
  · rw [chainLanguage_cons]
    rfl

theorem chainLanguage_consNode (t : Token) (ns : List Node) :
    chainLanguage (t.consNode ns) = t.language * chainLanguage ns := by
  cases t with
  | literal w => exact chainLanguage_consRun w ns
  | separator => exact chainLanguage_consRun ['/'] ns
  | star | globstar | globstarSlash | anyChar | bracket => exact chainLanguage_cons _ _

/-- **The chain of a pattern takes what its tokens stand for.** -/
theorem chainLanguage_chain : ∀ ts : List Token, chainLanguage (chain ts) = language ts
  | [] => rfl
  | t :: ts => by
    rw [show chain (t :: ts) = t.consNode (chain ts) from rfl, chainLanguage_consNode,
      chainLanguage_chain ts, language, language, List.map_cons, List.prod_cons]

/-! ## Where a node stops -/

theorem mem_starStops_iff {s r : Text} : r ∈ starStops s ↔ ∃ w ∈ slashFree, w ++ r = s := by
  induction s with
  | nil =>
    simp only [starStops, List.mem_singleton, List.append_eq_nil_iff]
    exact ⟨fun h => ⟨[], List.not_mem_nil, rfl, h⟩, fun ⟨_, _, _, h⟩ => h⟩
  | cons c s ih =>
    unfold starStops
    split
    · next hc =>
      rw [List.mem_singleton]
      constructor
      · rintro rfl
        exact ⟨[], List.not_mem_nil, rfl⟩
      · rintro ⟨w, hw, heq⟩
        cases w with
        | nil => exact heq
        | cons d w =>
          rw [List.cons_append, List.cons.injEq] at heq
          exact absurd (by rw [heq.1, hc]; exact List.mem_cons_self) hw
    · next hc =>
      rw [List.mem_cons, ih]
      constructor
      · rintro (rfl | ⟨w, hw, rfl⟩)
        · exact ⟨[], List.not_mem_nil, rfl⟩
        · refine ⟨c :: w, ?_, rfl⟩
          rw [mem_slashFree, List.mem_cons]
          rintro (h | h)
          · exact hc h.symm
          · exact hw h
      · rintro ⟨w, hw, heq⟩
        cases w with
        | nil => exact .inl heq
        | cons d w =>
          rw [List.cons_append, List.cons.injEq] at heq
          exact .inr ⟨w, fun h => hw (List.mem_cons_of_mem _ h), heq.2⟩

theorem mem_allStops_iff {s r : Text} : r ∈ allStops s ↔ ∃ w, w ++ r = s := by
  induction s with
  | nil =>
    simp only [allStops, List.mem_singleton, List.append_eq_nil_iff]
    exact ⟨fun h => ⟨[], rfl, h⟩, fun ⟨_, _, h⟩ => h⟩
  | cons c s ih =>
    rw [allStops, List.mem_cons, ih]
    constructor
    · rintro (rfl | ⟨w, rfl⟩)
      · exact ⟨[], rfl⟩
      · exact ⟨c :: w, rfl⟩
    · rintro ⟨w, heq⟩
      cases w with
      | nil => exact .inl heq
      | cons d w =>
        rw [List.cons_append, List.cons.injEq] at heq
        exact .inr ⟨w, heq.2⟩

/-- Whole segments are none at all, or a first one and further ones. -/
theorem exists_kstar_wholeSegment_iff {s r : Text} :
    (∃ w ∈ wholeSegment∗, w ++ r = s) ↔
      r = s ∨ ∃ t, t ≠ [] ∧ '/' ∉ t ∧ ∃ w ∈ wholeSegment∗, t ++ '/' :: (w ++ r) = s := by
  constructor
  · rintro ⟨w, hw, rfl⟩
    rw [← one_add_self_mul_kstar_eq_kstar, mem_add, mem_one, mem_mul] at hw
    rcases hw with rfl | ⟨_, ⟨t, ht, hts, rfl⟩, w, hw, rfl⟩
    · exact .inl rfl
    · exact .inr ⟨t, ht, hts, w, hw, by simp⟩
  · rintro (rfl | ⟨t, ht, hts, w, hw, rfl⟩)
    · exact ⟨[], nil_mem_kstar _, rfl⟩
    · refine ⟨t ++ ['/'] ++ w, ?_, by simp⟩
      rw [← one_add_self_mul_kstar_eq_kstar, mem_add]
      exact .inr (append_mem_mul ⟨t, ht, hts, rfl⟩ hw)

/-- A first segment ends in the text after the characters `t`, and whole segments may follow. Inside a
segment `t` may be empty. -/
theorem mem_segmentEnds_iff {inside : Bool} {s r : Text} :
    r ∈ segmentEnds inside s ↔
      ∃ t, (inside = false → t ≠ []) ∧ '/' ∉ t ∧ ∃ w ∈ wholeSegment∗, t ++ '/' :: (w ++ r) = s := by
  induction s generalizing inside with
  | nil => simp [segmentEnds]
  | cons c s ih =>
    unfold segmentEnds
    split
    · next hc =>
      subst hc
      cases inside with
      | false =>
        -- A slash with nothing before it ends no segment.
        simp only [Bool.false_eq_true, if_false, List.not_mem_nil, false_iff]
        rintro ⟨t, hne, hts, w, _, heq⟩
        cases t with
        | nil => exact hne trivial rfl
        | cons d t =>
          rw [List.cons_append, List.cons.injEq] at heq
          exact hts (heq.1 ▸ List.mem_cons_self)
      | true =>
        -- The segment ends here: `r` is what is left, or further whole segments follow first.
        have hfirst : r = s ∨ r ∈ segmentEnds false s ↔ ∃ w ∈ wholeSegment∗, w ++ r = s := by
          rw [exists_kstar_wholeSegment_iff, ih]
          simp only [forall_const]
        rw [if_pos rfl, List.mem_cons, hfirst]
        constructor
        · rintro ⟨w, hw, rfl⟩
          exact ⟨[], by simp, List.not_mem_nil, w, hw, rfl⟩
        · rintro ⟨t, _, hts, w, hw, heq⟩
          cases t with
          | nil => exact ⟨w, hw, (List.cons.inj heq).2⟩
          | cons d t =>
            rw [List.cons_append, List.cons.injEq] at heq
            exact absurd (heq.1 ▸ List.mem_cons_self) hts
    · next hc =>
      rw [ih]
      constructor
      · rintro ⟨t, _, hts, w, hw, rfl⟩
        refine ⟨c :: t, by simp, ?_, w, hw, rfl⟩
        rw [List.mem_cons, not_or]
        exact ⟨fun h => hc h.symm, hts⟩
      · rintro ⟨t, _, hts, w, hw, heq⟩
        cases t with
        | nil => exact absurd (List.cons.inj heq).1.symm hc
        | cons d t =>
          rw [List.cons_append, List.cons.injEq] at heq
          exact ⟨t, by simp, fun h => hts (List.mem_cons_of_mem _ h), w, hw, heq.2⟩

/-- One character is taken if it is there and has the property. -/
theorem exists_oneCharacter_iff {p : Char → Prop} {s r : Text} :
    (∃ w ∈ oneCharacter p, w ++ r = s) ↔ ∃ c, p c ∧ c :: r = s := by
  constructor
  · rintro ⟨_, ⟨c, hc, rfl⟩, heq⟩
    exact ⟨c, hc, heq⟩
  · rintro ⟨c, hc, heq⟩
    exact ⟨[c], ⟨c, hc, rfl⟩, heq⟩

/-- **A node stops where a text of its language ends.** -/
theorem Node.mem_stops_iff {n : Node} {s r : Text} :
    r ∈ n.stops s ↔ ∃ w ∈ n.language, w ++ r = s := by
  cases n with
  | run t =>
    rw [stops, Option.mem_toList, Text.isPrefixOf?_eq_some_iff]
    exact ⟨fun h => ⟨t, rfl, h⟩, fun ⟨_, hw, h⟩ => hw ▸ h⟩
  | anyChar =>
    rw [language, exists_oneCharacter_iff]
    cases s with
    | nil => simp [stops]
    | cons c s =>
      unfold stops
      split <;> simp_all
  | oneOf set =>
    rw [language, exists_oneCharacter_iff]
    cases s with
    | nil => simp [stops]
    | cons c s =>
      unfold stops
      split <;> simp_all [← CharSet.accepts_iff_holds]
  | star => exact mem_starStops_iff
  | segments =>
    rw [language, exists_kstar_wholeSegment_iff, stops, List.mem_cons, mem_segmentEnds_iff]
    simp only [forall_const]
  | rest =>
    rw [stops, mem_allStops_iff]
    exact ⟨fun ⟨w, h⟩ => ⟨w, trivial, h⟩, fun ⟨w, _, h⟩ => ⟨w, h⟩⟩

/-- What a chain takes, one node at a time. -/
theorem mem_chainLanguage_cons_iff {n : Node} {ns : List Node} {s : Text} :
    s ∈ chainLanguage (n :: ns) ↔ ∃ r ∈ n.stops s, r ∈ chainLanguage ns := by
  rw [chainLanguage_cons, mem_mul]
  constructor
  · rintro ⟨w, hw, r, hr, heq⟩
    exact ⟨r, Node.mem_stops_iff.mpr ⟨w, hw, heq⟩, hr⟩
  · rintro ⟨r, hstop, hr⟩
    obtain ⟨w, hw, heq⟩ := Node.mem_stops_iff.mp hstop
    exact ⟨w, hw, r, hr, heq⟩

/-! ## How many stops there are -/

theorem length_starStops_le (s : Text) : (starStops s).length ≤ s.length + 1 := by
  induction s with
  | nil => simp [starStops]
  | cons c s ih =>
    unfold starStops
    split
    · simp
    · rw [List.length_cons, List.length_cons]
      omega

theorem length_allStops (s : Text) : (allStops s).length = s.length + 1 := by
  induction s with
  | nil => rfl
  | cons c s ih => rw [allStops, List.length_cons, List.length_cons, ih]

theorem length_segmentEnds_le (inside : Bool) (s : Text) :
    (segmentEnds inside s).length ≤ s.length := by
  induction s generalizing inside with
  | nil => simp [segmentEnds]
  | cons c s ih =>
    have hin := ih false
    have hout := ih true
    unfold segmentEnds
    split
    · split
      · rw [List.length_cons, List.length_cons]
        omega
      · simp
    · rw [List.length_cons]
      omega

/-- A node has one stop more than the candidate has characters at most. -/
theorem Node.length_stops_le (n : Node) (s : Text) : (n.stops s).length ≤ s.length + 1 := by
  cases n with
  | run t =>
    have h := Option.length_toList_le (o := t.isPrefixOf? s)
    rw [stops]
    omega
  | anyChar => cases s <;> simp only [stops] <;> (try split) <;> simp
  | oneOf set => cases s <;> simp only [stops] <;> (try split) <;> simp
  | star => exact length_starStops_le s
  | segments =>
    have h := length_segmentEnds_le false s
    rw [stops, List.length_cons]
    omega
  | rest => exact Nat.le_of_eq (length_allStops s)

/-- A stop is an end of the candidate. -/
theorem Node.isSuffix_of_mem_stops {n : Node} {s r : Text} (h : r ∈ n.stops s) : r <:+ s := by
  obtain ⟨w, _, heq⟩ := mem_stops_iff.mp h
  exact ⟨w, heq⟩

end PathIgnore.Glob
