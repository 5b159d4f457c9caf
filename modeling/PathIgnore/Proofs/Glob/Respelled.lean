import PathIgnore.Proofs.Glob.Escaped
import PathIgnore.Proofs.Glob.Neighbours
import PathIgnore.Proofs.Glob.SetText

/-!
# Patterns spelled anew

The tokens of a pattern can be written down again: a literal with a backslash in front of each
character, a set as it was spelled, and any other token by its sign. What is written reads as the same
tokens (`tokenize_respelled`), so the tokens say all about a pattern but its spelling.

What stands behind a set may have been spelled otherwise before. That does not matter to the set as long
as no `:]` comes in, and none does: a `:]` in the new text stands in a set, and so in the old text too
(`readSegment_respelled`).
-/

namespace PathIgnore.Glob

/-- The text of a token with every character of a literal escaped. -/
def Token.respelled : Token → Text
  | literal w => escaped w
  | t => t.text

/-- The tokens written one after the other. -/
def respelled (ts : List Token) : Text := ts.flatMap Token.respelled

/-- The text may follow a segment. -/
def EndsSegment (x : Text) : Prop := x = [] ∨ x.head? = some '/'

variable {x : Text}

theorem respelled_cons (t : Token) (ts : List Token) :
    respelled (t :: ts) = t.respelled ++ respelled ts := rfl

theorem respelled_append (ts us : List Token) :
    respelled (ts ++ us) = respelled ts ++ respelled us := List.flatMap_append

/-- A token that is joined to the next is written in front of it; a star that counts once is written
once. -/
theorem respelled_prepend (t : Token) (ts : List Token) :
    respelled (t.prepend ts) = t.respelled ++ respelled ts ∨ t = .star ∧ t.prepend ts = ts := by
  unfold Token.prepend
  split
  · left
    simp only [respelled_cons, Token.respelled, escaped_append, List.append_assoc]
  · exact .inr ⟨rfl, rfl⟩
  · exact .inl rfl

/-! ## How a segment starts -/

/-- The characters with which the tokens of a segment, and what follows it, are written first. -/
theorem head?_respelled {ts : List Token} (h : IsSegment ts) (hx : EndsSegment x) :
    ∀ c ∈ (respelled ts ++ x).head?, c ∈ ['\\', '?', '[', '/'] ∨ c = '*' ∧ ts.head? = some .star := by
  intro c hc
  cases ts with
  | nil =>
    rcases hx with rfl | hslash
    · cases hc
    · obtain rfl : '/' = c := Option.some.inj (hslash.symm.trans hc)
      exact .inl (by decide)
  | cons t ts =>
    have ht := h.isInSegment t List.mem_cons_self
    rw [respelled_cons] at hc
    cases t with
    | separator | globstar | globstarSlash => exact ht.elim
    | literal w =>
      obtain ⟨d, w, rfl⟩ := List.exists_cons_of_ne_nil ht
      cases hc
      exact .inl (by decide)
    | star =>
      cases hc
      exact .inr ⟨rfl, rfl⟩
    | anyChar =>
      cases hc
      exact .inl (by decide)
    | bracket source set =>
      obtain ⟨body, rfl⟩ := List.head?_eq_some_iff.mp ht
      cases hc
      exact .inl (by decide)

theorem head?_respelled_ne {ts : List Token} (h : IsSegment ts) (hx : EndsSegment x) :
    (respelled ts ++ x).head? ≠ some ']' := by
  intro hhead
  rcases head?_respelled h hx ']' hhead with hmem | ⟨heq, -⟩
  · simp at hmem
  · cases heq

/-- Two stars never stand side by side, so no segment turns into a double star. -/
theorem afterGlobstar?_respelled {ts : List Token} (h : IsSegment ts) (hx : EndsSegment x) :
    afterGlobstar? (respelled ts ++ x) = none := by
  have hstar {us : List Token} (hus : IsSegment us) (hhead : (respelled us ++ x).head? = some '*') :
      us.head? = some .star := by
    rcases head?_respelled hus hx '*' hhead with hmem | ⟨-, hstar⟩
    · simp at hmem
    · exact hstar
  cases hafter : afterGlobstar? (respelled ts ++ x) with
  | none => rfl
  | some r =>
    obtain ⟨heq, -⟩ := eq_of_afterGlobstar? hafter
    obtain ⟨us, rfl⟩ := List.head?_eq_some_iff.mp (hstar h (by rw [heq]; rfl))
    obtain ⟨hlink, hchain⟩ := List.isChain_cons.mp h.isChain
    have hus : IsSegment us := ⟨fun u hu => h.isInSegment u (List.mem_cons_of_mem _ hu), hchain⟩
    have hrest : respelled us ++ x = '*' :: r := by
      rw [respelled_cons] at heq
      exact (List.cons.inj heq).2
    exact (hlink .star (hstar hus (by rw [hrest]; rfl))).elim

/-! ## Segments -/

/-- Away from a set an operator or a character is read. -/
theorem eq_of_readAtom {c : Char} {r s : Text} {t : Token} (hc : c ≠ '[')
    (h : readAtom c r = .ok (t, s)) : t = .star ∨ t = .anyChar ∨ ∃ d, t = .literal [d] := by
  unfold readAtom at h
  split at h
  · cases h; exact .inl rfl
  · split at h
    · cases h; exact .inr (.inl rfl)
    · split at h
      · cases h
      · cases h; exact .inr (.inr ⟨_, rfl⟩)

/-- **One token of a segment written anew is read again**, in front of any text in which no `:]` comes
that was not there before. -/
theorem readAtom_respelled {c : Char} {r s y : Text} {t : Token} (h : readAtom c r = .ok (t, s))
    (hy : classEnd <:+: y → classEnd <:+: s) (hhead : y.head? ≠ some ']') :
    ∃ d v, t.respelled = d :: v ∧ d ≠ '/' ∧ readAtom d (v ++ y) = .ok (t, y) ∧
      (classEnd <:+: t.respelled ++ y → classEnd <:+: c :: r) := by
  by_cases hc : c = '['
  · subst hc
    obtain ⟨body, set, rfl, rfl, -, hread⟩ := exists_source_of_readAtom h
    refine ⟨'[', body, rfl, by decide, hread y hy, fun hin => ?_⟩
    rcases classEnd_infix_append (.inr hhead) hin with hin | hin
    · exact hin.trans (List.prefix_append ('[' :: body) s).isInfix
    · exact (hy hin).trans (List.suffix_append ('[' :: body) s).isInfix
  · have hlater (hsign : ¬ classEnd <:+: t.respelled) (hin : classEnd <:+: t.respelled ++ y) :
        classEnd <:+: c :: r := by
      have hin := (classEnd_infix_append (.inr hhead) hin).resolve_left hsign
      exact (hy hin).trans ((isSuffix_of_readAtom h).trans (List.suffix_cons c r)).isInfix
    rcases eq_of_readAtom hc h with rfl | rfl | ⟨d, rfl⟩
    · exact ⟨'*', [], rfl, by decide, rfl, hlater (by decide)⟩
    · exact ⟨'?', [], rfl, by decide, rfl, hlater (by decide)⟩
    · refine ⟨'\\', [d], rfl, by decide, rfl, hlater fun hin => ?_⟩
      have heq := hin.eq_of_length rfl
      cases heq

/-- **A segment written anew reads as the same tokens.** Where a `:]` is in the new text, one was in the
old. -/
theorem readSegment_respelled {t s : Text} {ts : List Token} (h : readSegment t = .ok (ts, s))
    (hx : EndsSegment x) (hend : classEnd <:+: x → classEnd <:+: s) :
    readSegment (respelled ts ++ x) = .ok (ts, x) ∧
      (classEnd <:+: respelled ts ++ x → classEnd <:+: t) := by
  have hstop : readSegment x = .ok ([], x) := by
    rcases hx with rfl | hslash
    · rw [readSegment]
    · obtain ⟨r, rfl⟩ := List.head?_eq_some_iff.mp hslash
      rw [readSegment, if_pos rfl]
  fun_induction readSegment t generalizing ts s with
  | case1 =>
    cases h
    exact ⟨hstop, hend⟩
  | case2 =>
    cases h
    exact ⟨hstop, hend⟩
  | case3 => cases h
  | case4 => cases h
  | case5 c r hc a u hatom bs v hrest ih =>
    cases h
    obtain ⟨hread, hclass⟩ := ih hrest hend
    obtain ⟨d, w, hspell, hd, hatom', hclass'⟩ := readAtom_respelled hatom hclass
      (head?_respelled_ne (isSegment_of_readSegment hrest) hx)
    rcases respelled_prepend a bs with heq | ⟨-, heq⟩
    · rw [heq, List.append_assoc]
      refine ⟨?_, hclass'⟩
      rw [hspell, List.cons_append, readSegment_of_ok hd hatom', hread]
      rfl
    · -- A star that counts once is not written again.
      rw [heq]
      refine ⟨hread, fun hin => (hclass hin).trans ?_⟩
      exact ((isSuffix_of_readAtom hatom).trans (List.suffix_cons c r)).isInfix

/-! ## Patterns -/

/-- Behind signs that end no class, a class ends only later. -/
theorem classEnd_of_signs {a u : Text} (ha : ¬ classEnd <:+: a) (hlast : a.getLast? ≠ some ':')
    (h : classEnd <:+: a ++ u) : classEnd <:+: u :=
  (classEnd_infix_append (.inl hlast) h).resolve_left ha

/-- **Segments written anew read as the same tokens.** -/
theorem ReadsAs.respelled {t : Text} {ts : List Token} (h : ReadsAs t ts) :
    ReadsAs (respelled ts) ts ∧ (classEnd <:+: Glob.respelled ts → classEnd <:+: t) := by
  induction h with
  | all => exact ⟨.all, id⟩
  | allSlash => exact ⟨.allSlash, id⟩
  | @skip c r ts hrest ih =>
    obtain ⟨hread, hclass⟩ := ih
    obtain ⟨d, w, heq⟩ := List.exists_cons_of_ne_nil hread.ne_nil.1
    have hwritten : Glob.respelled (.globstarSlash :: ts) = "**/".toList ++ Glob.respelled ts := rfl
    rw [hwritten]
    refine ⟨?_, fun hin => ?_⟩
    · rw [heq] at hread ⊢
      exact .skip hread
    · exact (hclass (classEnd_of_signs (by decide) (by decide) hin)).trans
        (List.suffix_append "**/".toList (c :: r)).isInfix
  | @last t ts hstar hts h =>
    have hsegment := isSegment_of_readSegment h
    obtain ⟨hread, hclass⟩ := readSegment_respelled h (.inl rfl) id
    have hstar' := afterGlobstar?_respelled hsegment (.inl rfl)
    rw [List.append_nil] at hread hclass hstar'
    exact ⟨.last hstar' hts hread, hclass⟩
  | @lastSlash t ts hstar hts h =>
    have hends : EndsSegment ['/'] := .inr rfl
    obtain ⟨hread, hclass⟩ := readSegment_respelled h hends id
    rw [respelled_append]
    exact ⟨.lastSlash (afterGlobstar?_respelled (isSegment_of_readSegment h) hends) hts hread, hclass⟩
  | @next t c r ts us hstar hts h hrest ih =>
    obtain ⟨hnext, hclass⟩ := ih
    have hwritten : Glob.respelled (ts ++ .separator :: us) =
        Glob.respelled ts ++ '/' :: Glob.respelled us := respelled_append _ _
    obtain ⟨d, w, heq⟩ := List.exists_cons_of_ne_nil hnext.ne_nil.1
    rw [heq] at hnext hclass hwritten
    have hends : EndsSegment ('/' :: d :: w) := .inr rfl
    have hend : classEnd <:+: '/' :: d :: w → classEnd <:+: '/' :: c :: r := fun hin =>
      (hclass (classEnd_of_signs (a := ['/']) (by decide) (by decide) hin)).trans
        (List.suffix_cons '/' (c :: r)).isInfix
    obtain ⟨hread, hin⟩ := readSegment_respelled h hends hend
    rw [hwritten]
    exact ⟨.next (afterGlobstar?_respelled (isSegment_of_readSegment h) hends) hts hread hnext, hin⟩

/--
**The tokens of a pattern, written anew, read as themselves.** The glob of the new text accepts what the
glob of the old text does.
-/
theorem tokenize_respelled (g : Glob) :
    tokenize (respelled g.tokens) = .ok g.tokens ∧
      ∃ h : Glob, compile (respelled g.tokens) = .ok h ∧ ∀ s, h.accepts s = g.accepts s := by
  have hread : tokenize (respelled g.tokens) = .ok g.tokens := by
    rw [tokenize_eq_ok_iff]
    rcases readsAs_of_readPattern (tokenize_eq_ok_iff.mp g.tokenize_pattern) with
      ⟨-, hread⟩ | ⟨r, us, -, heq, hread⟩
    · obtain ⟨hnew, -⟩ := hread.respelled
      rw [readPattern_of_head? hnew.ne_nil.1 hnew.head?_text_ne, hnew.readSegments_eq]
    · obtain ⟨hnew, -⟩ := hread.respelled
      rw [heq]
      show readPattern ('/' :: respelled us) = _
      rw [readPattern_slash, hnew.readSegments_eq]
      rfl
  exact ⟨hread, ⟨_, _, hread⟩, compile_eq_ok_iff.mpr ⟨rfl, hread⟩, fun s => rfl⟩

end PathIgnore.Glob
