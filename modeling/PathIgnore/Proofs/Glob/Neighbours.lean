import PathIgnore.Proofs.Glob.Joined

/-!
# What stands next to what in a pattern

Reading joins neighbouring literals and stars, refuses empty segments, and makes a double star its own
token only where it stands alone in a segment. So the tokens of a pattern are well spaced
(`WellSpaced`), whatever the pattern is.

It follows that `**/` skips whole segments: however a candidate is cut among the tokens, the part for a
`**/` starts where a segment starts and holds segments with their slashes (`skips_whole_segments`).
-/

namespace PathIgnore.Glob

open Language Computability

/-! ## Neighbours -/

/-- Which tokens may stand side by side. Literals, stars and separators have no neighbour of their own
kind; a globstar has only a separator behind it, and `**/` has none; and a double star stands behind a
separator or behind `**/`. -/
def Token.MayPrecede : Token → Token → Prop
  | literal _, literal _ | star, star | separator, separator | globstarSlash, separator => False
  | globstar, u => u = separator
  | t, globstar | t, globstarSlash => t = separator ∨ t = globstarSlash
  | _, _ => True

/-- The order in which the tokens of a pattern stand. -/
structure WellSpaced (ts : List Token) : Prop where
  literal_ne_nil : ∀ w, .literal w ∈ ts → w ≠ []
  isChain : ts.IsChain Token.MayPrecede
  getLast?_ne : ts.getLast? ≠ some .globstarSlash
  /-- A globstar is last, or followed only by a separator at the end. -/
  after_globstar : ∀ us vs, ts = us ++ .globstar :: vs → vs = [] ∨ vs = [.separator]

/-- The token stands inside a segment. A set is spelled from its opening bracket on. -/
def Token.IsInSegment : Token → Prop
  | separator | globstar | globstarSlash => False
  | literal w => w ≠ []
  | bracket source _ => source.head? = some '['
  | star | anyChar => True

theorem Token.IsInSegment.mayPrecede_separator {t : Token} (h : t.IsInSegment) :
    t.MayPrecede separator := by
  cases t with
  | separator | globstar | globstarSlash => exact h.elim
  | literal | star | anyChar | bracket => trivial

theorem Token.mayPrecede_of_ne {t u : Token} (ht : t = separator ∨ t = globstarSlash)
    (hu : u ≠ separator) : t.MayPrecede u := by
  rcases ht with rfl | rfl <;> cases u with
  | separator => exact absurd rfl hu
  | globstar | globstarSlash => simp [MayPrecede]
  | literal | star | anyChar | bracket => trivial

/-! ## Inside a segment -/

/-- The tokens of one segment: no separator and no double star, and nothing that should be joined. -/
structure IsSegment (ts : List Token) : Prop where
  isInSegment : ∀ t ∈ ts, t.IsInSegment
  isChain : ts.IsChain Token.MayPrecede

theorem IsSegment.nil : IsSegment [] := ⟨by simp, .nil⟩

theorem isInSegment_of_readAtom {c : Char} {r s : Text} {t : Token} (h : readAtom c r = .ok (t, s)) :
    t.IsInSegment := by
  have hle := length_le_of_readAtom h
  unfold readAtom at h
  split at h
  · cases h; trivial
  · split at h
    · cases h; trivial
    · split at h
      · next hc =>
        split at h
        · cases h
        · cases h
          show (List.take _ (c :: r)).head? = some '['
          rw [List.head?_take, if_neg (by omega), hc]
          rfl
      · split at h
        · cases h
        · cases h; exact List.cons_ne_nil _ _

theorem Token.literal_mayPrecede {v : Text} {u : Token} (h : (literal v).MayPrecede u) (w : Text) :
    (literal w).MayPrecede u := by
  cases u with
  | globstar | globstarSlash => rcases h with heq | heq <;> cases heq
  | literal | star | anyChar | bracket | separator => exact h

/-- In front of tokens of a segment a token is joined to its own kind, or may stand by itself. -/
theorem Token.prepend_cases {t : Token} {ts : List Token} (ht : t.IsInSegment)
    (hts : ∀ u ∈ ts, u.IsInSegment) :
    (∃ w v us, t = literal w ∧ ts = literal v :: us ∧ t.prepend ts = literal (w ++ v) :: us) ∨
      (∃ us, t = star ∧ ts = star :: us ∧ t.prepend ts = ts) ∨
      (t.prepend ts = t :: ts ∧ ∀ u ∈ ts.head?, t.MayPrecede u) := by
  cases ts with
  | nil => exact .inr (.inr ⟨prepend_nil t, nofun⟩)
  | cons u us =>
    have hu : u.IsInSegment := hts u List.mem_cons_self
    have hapart (heq : t.prepend (u :: us) = t :: u :: us) (hnext : t.MayPrecede u) :
        t.prepend (u :: us) = t :: u :: us ∧ ∀ v ∈ (u :: us).head?, t.MayPrecede v :=
      ⟨heq, by simpa using hnext⟩
    cases t with
    | separator | globstar | globstarSlash => exact ht.elim
    | literal w =>
      cases u with
      | separator | globstar | globstarSlash => exact hu.elim
      | literal v => exact .inl ⟨w, v, us, rfl, rfl, rfl⟩
      | star | anyChar | bracket => exact .inr (.inr (hapart rfl trivial))
    | star =>
      cases u with
      | separator | globstar | globstarSlash => exact hu.elim
      | star => exact .inr (.inl ⟨us, rfl, rfl, rfl⟩)
      | literal | anyChar | bracket => exact .inr (.inr (hapart rfl trivial))
    | anyChar | bracket =>
      cases u with
      | separator | globstar | globstarSlash => exact hu.elim
      | literal | star | anyChar | bracket => exact .inr (.inr (hapart rfl trivial))

theorem IsSegment.prepend {t : Token} {ts : List Token} (ht : t.IsInSegment) (hts : IsSegment ts) :
    IsSegment (t.prepend ts) := by
  rcases Token.prepend_cases ht hts.isInSegment with
    ⟨w, v, us, rfl, rfl, heq⟩ | ⟨us, rfl, rfl, heq⟩ | ⟨heq, hnext⟩ <;> rw [heq]
  · have hchain := List.isChain_cons.mp hts.isChain
    refine ⟨fun u hu => ?_, List.isChain_cons.mpr ⟨fun u hu => ?_, hchain.2⟩⟩
    · rcases List.mem_cons.mp hu with rfl | hmem
      · exact List.append_ne_nil_of_left_ne_nil ht v
      · exact hts.isInSegment u (List.mem_cons_of_mem _ hmem)
    · exact Token.literal_mayPrecede (hchain.1 u hu) _
  · exact hts
  · exact ⟨List.forall_mem_cons.mpr ⟨ht, hts.isInSegment⟩, List.isChain_cons.mpr ⟨hnext, hts.isChain⟩⟩

/-- **A segment reads as tokens of one segment.** -/
theorem isSegment_of_readSegment {t s : Text} {ts : List Token} (h : readSegment t = .ok (ts, s)) :
    IsSegment ts := by
  fun_induction readSegment t generalizing ts s with
  | case1 => cases h; exact .nil
  | case2 => cases h; exact .nil
  | case3 => cases h
  | case4 => cases h
  | case5 c r _ a u hatom bs v hrest ih =>
    cases h
    exact (ih hrest).prepend (isInSegment_of_readAtom hatom)

/-! ## From segment to segment -/

theorem IsSegment.head?_ne {ts : List Token} (h : IsSegment ts) (back : List Token) (hne : ts ≠ []) :
    (ts ++ back).head? ≠ some .separator := by
  obtain ⟨t, ts, rfl⟩ := List.exists_cons_of_ne_nil hne
  rintro ⟨⟩
  exact h.isInSegment _ List.mem_cons_self

/-- No segment is empty, so segments do not start with a separator. -/
theorem ReadsAs.head?_ne {t : Text} {ts : List Token} (h : ReadsAs t ts) :
    ts.head? ≠ some .separator := by
  cases h with
  | all | allSlash | skip => simp
  | last hstar hts h => simpa using (isSegment_of_readSegment h).head?_ne [] hts
  | lastSlash hstar hts h => exact (isSegment_of_readSegment h).head?_ne _ hts
  | next hstar hts h hrest => exact (isSegment_of_readSegment h).head?_ne _ hts

theorem IsSegment.wellSpaced {ts : List Token} (h : IsSegment ts) : WellSpaced ts where
  literal_ne_nil w hw := h.isInSegment _ hw
  isChain := h.isChain
  getLast?_ne hlast := h.isInSegment _ (List.mem_of_getLast? hlast)
  after_globstar us vs heq := (h.isInSegment .globstar (by simp [heq])).elim

/-- A separator or `**/` may stand in front of tokens that do not start with a separator; alone, only the
separator may. -/
theorem WellSpaced.cons {t : Token} {ts : List Token} (ht : t = .separator ∨ t = .globstarSlash)
    (h : WellSpaced ts) (hhead : ts.head? ≠ some .separator) (hlast : t :: ts ≠ [.globstarSlash]) :
    WellSpaced (t :: ts) where
  literal_ne_nil w hw := by
    rcases List.mem_cons.mp hw with heq | hmem
    · rcases ht with rfl | rfl <;> cases heq
    · exact h.literal_ne_nil w hmem
  isChain := List.isChain_cons.mpr
    ⟨fun u hu => Token.mayPrecede_of_ne ht fun heq => hhead (heq ▸ hu), h.isChain⟩
  getLast?_ne hend := by
    cases ts with
    | nil => exact hlast (by simpa using hend)
    | cons u ts => exact h.getLast?_ne (by simpa using hend)
  after_globstar us vs heq := by
    cases us with
    | nil =>
      cases heq
      rcases ht with heq | heq <;> cases heq
    | cons u us =>
      cases heq
      exact h.after_globstar us vs rfl

/-- A segment may stand in front of a separator and what follows that. -/
theorem IsSegment.wellSpaced_append {ts us : List Token} (h : IsSegment ts)
    (hback : WellSpaced (.separator :: us)) : WellSpaced (ts ++ .separator :: us) where
  literal_ne_nil w hw := by
    rcases List.mem_append.mp hw with hmem | hmem
    · exact h.isInSegment _ hmem
    · exact hback.literal_ne_nil w hmem
  isChain := h.isChain.append hback.isChain fun t ht u hu => by
    cases hu
    exact (h.isInSegment t (List.mem_of_getLast? ht)).mayPrecede_separator
  getLast?_ne := by
    rw [List.getLast?_append_of_ne_nil _ (List.cons_ne_nil _ _)]
    exact hback.getLast?_ne
  after_globstar vs ws heq := by
    -- The globstar is not inside the segment, so it stands in what follows.
    rcases List.append_eq_append_iff.mp heq with ⟨front, rfl, hrest⟩ | ⟨front, rfl, hrest⟩
    · exact hback.after_globstar front ws hrest
    · cases front with
      | nil => exact hback.after_globstar [] ws hrest.symm
      | cons t front =>
        cases hrest
        exact (h.isInSegment .globstar (by simp)).elim

theorem wellSpaced_separator : WellSpaced [.separator] where
  literal_ne_nil w hw := by simp at hw
  isChain := .singleton _
  getLast?_ne := by simp
  after_globstar us vs heq := by
    have hmem : Token.globstar ∈ [Token.separator] := heq ▸ by simp
    simp at hmem

/-- A globstar at the end of the pattern. -/
theorem wellSpaced_globstar {ts : List Token} (h : ts = [] ∨ ts = [.separator]) :
    WellSpaced (.globstar :: ts) where
  literal_ne_nil w hw := by rcases h with rfl | rfl <;> simp at hw
  isChain := by
    rcases h with rfl | rfl
    · exact .singleton _
    · exact List.isChain_pair.mpr rfl
  getLast?_ne := by rcases h with rfl | rfl <;> simp
  after_globstar us vs heq := by
    cases us with
    | nil =>
      cases heq
      exact h
    | cons u us =>
      have hmem : Token.globstar ∈ ts := by
        cases heq
        simp
      rcases h with rfl | rfl <;> simp at hmem

theorem ReadsAs.wellSpaced {t : Text} {ts : List Token} (h : ReadsAs t ts) : WellSpaced ts := by
  induction h with
  | all => exact wellSpaced_globstar (.inl rfl)
  | allSlash => exact wellSpaced_globstar (.inr rfl)
  | skip hrest ih => exact ih.cons (.inr rfl) hrest.head?_ne (by simpa using hrest.ne_nil.2)
  | last hstar hts h => exact (isSegment_of_readSegment h).wellSpaced
  | lastSlash hstar hts h =>
    exact (isSegment_of_readSegment h).wellSpaced_append wellSpaced_separator
  | next hstar hts h hrest ih =>
    exact (isSegment_of_readSegment h).wellSpaced_append
      (ih.cons (.inl rfl) hrest.head?_ne (by simp))

/-- **The tokens of a pattern are well spaced.** -/
theorem wellSpaced_tokens (g : Glob) : WellSpaced g.tokens := by
  rcases readsAs_of_readPattern (tokenize_eq_ok_iff.mp g.tokenize_pattern) with
    ⟨-, hread⟩ | ⟨r, us, -, heq, hread⟩
  · exact hread.wellSpaced
  · rw [heq]
    exact hread.wellSpaced.cons (.inl rfl) hread.head?_ne (by simp)

/-! ## Where `**/` starts -/

/-- The text ends where a segment may start. -/
def EndsAtSegment (front : Text) : Prop := front = [] ∨ front.getLast? = some '/'

theorem EndsAtSegment.append_segments {front : Text} (h : EndsAtSegment front) {part : Text}
    (hpart : part ∈ wholeSegment∗) : EndsAtSegment (front ++ part) := by
  rw [← one_add_kstar_mul_self_eq_kstar, mem_add, mem_one, mem_mul] at hpart
  rcases hpart with rfl | ⟨u, -, _, ⟨t, -, -, rfl⟩, rfl⟩
  · rwa [List.append_nil]
  · exact .inr (by simp [← List.append_assoc])

/-- **What stands before a `**/` ends where a segment starts.** -/
theorem endsAtSegment_of_cut {us : List Token} {front : Text} {pieces : List Text}
    (hchain : (us ++ [Token.globstarSlash]).IsChain Token.MayPrecede)
    (hfront : (us ++ [Token.globstarSlash]).head? = some .globstarSlash → EndsAtSegment front)
    (hcut : List.Forall₂ (fun piece t => piece ∈ Token.language t) pieces us) :
    EndsAtSegment (front ++ pieces.flatten) := by
  induction hcut generalizing front with
  | nil => simpa using hfront rfl
  | @cons piece t pieces us hpiece hcut ih =>
    rw [List.flatten_cons, ← List.append_assoc]
    obtain ⟨hlink, hchain⟩ := List.isChain_cons.mp hchain
    refine ih hchain fun hnext => ?_
    -- A `**/` comes next, so this token is a separator or a `**/` itself.
    have hbefore : t.MayPrecede .globstarSlash := hlink _ hnext
    cases t with
    | separator =>
      obtain rfl : piece = ['/'] := hpiece
      exact .inr List.getLast?_concat
    | globstarSlash => exact (hfront rfl).append_segments hpiece
    | globstar => cases hbefore
    | literal | star | anyChar | bracket => rcases hbefore with heq | heq <;> cases heq

/-! ## What `**/` takes -/

/-- In the text the part between `front` and `back` holds whole segments, none of them empty, each with
its slash. -/
def HoldsSegments (front part back : Text) : Prop :=
  ∃ segments : List Text, (∀ t ∈ segments, t ≠ [] ∧ '/' ∉ t) ∧
    part = segments.flatMap (· ++ ['/']) ∧
    (front ++ part ++ back).splitOn '/' =
      (front.splitOn '/').dropLast ++ segments ++ back.splitOn '/'

theorem exists_segments_of_mem_kstar {part : Text} (h : part ∈ wholeSegment∗) :
    ∃ segments : List Text, (∀ t ∈ segments, t ≠ [] ∧ '/' ∉ t) ∧
      part = segments.flatMap (· ++ ['/']) := by
  obtain ⟨parts, rfl, hparts⟩ := mem_kstar.mp h
  clear h
  induction parts with
  | nil => exact ⟨[], nofun, rfl⟩
  | cons part parts ih =>
    obtain ⟨t, ht, hslash, rfl⟩ := hparts part List.mem_cons_self
    obtain ⟨segments, hsegments, heq⟩ := ih fun x hx => hparts x (List.mem_cons_of_mem _ hx)
    exact ⟨t :: segments, List.forall_mem_cons.mpr ⟨⟨ht, hslash⟩, hsegments⟩, by simp [heq]⟩

theorem splitOn_segments {segments : List Text} (h : ∀ t ∈ segments, t ≠ [] ∧ '/' ∉ t)
    (back : Text) :
    (segments.flatMap (· ++ ['/']) ++ back).splitOn '/' = segments ++ back.splitOn '/' := by
  induction segments with
  | nil => rfl
  | cons t segments ih =>
    obtain ⟨⟨-, hslash⟩, hrest⟩ := List.forall_mem_cons.mp h
    rw [List.flatMap_cons, List.append_assoc, List.append_assoc, List.singleton_append,
      List.splitOn_append_cons_self, List.splitOn_eq_singleton hslash, ih hrest]
    rfl

theorem EndsAtSegment.splitOn_append {front : Text} (h : EndsAtSegment front) (back : Text) :
    (front ++ back).splitOn '/' = (front.splitOn '/').dropLast ++ back.splitOn '/' := by
  rcases h with rfl | hlast
  · rfl
  · obtain ⟨front, rfl⟩ := List.getLast?_eq_some_iff.mp hlast
    rw [List.append_assoc, List.singleton_append, List.splitOn_append_cons_self,
      List.splitOn_append_cons_self, List.splitOn_nil, List.dropLast_concat]

theorem EndsAtSegment.holdsSegments {front part : Text} (h : EndsAtSegment front)
    (hpart : part ∈ wholeSegment∗) (back : Text) : HoldsSegments front part back := by
  obtain ⟨segments, hsegments, rfl⟩ := exists_segments_of_mem_kstar hpart
  refine ⟨segments, hsegments, rfl, ?_⟩
  rw [List.append_assoc, h.splitOn_append, splitOn_segments hsegments, List.append_assoc]

/-- The pieces cut the text among the tokens. -/
def Cuts (ts : List Token) (s : Text) (pieces : List Text) : Prop :=
  pieces.flatten = s ∧ List.Forall₂ (fun piece t => piece ∈ Token.language t) pieces ts

theorem mem_language_iff_exists_cuts {ts : List Token} {s : Text} :
    s ∈ language ts ↔ ∃ pieces, Cuts ts s pieces := by
  rw [language, mem_prod_iff]
  simp only [Cuts, List.forall₂_map_right_iff]

/-- The piece of one token among the others. -/
theorem Cuts.exists_piece {ts : List Token} {s : Text} {pieces : List Text} (h : Cuts ts s pieces)
    {i : Nat} {t : Token} (ht : ts[i]? = some t) :
    ∃ piece ∈ t.language, pieces[i]? = some piece ∧
      s = (pieces.take i).flatten ++ piece ++ (pieces.drop (i + 1)).flatten := by
  obtain ⟨rfl, hcut⟩ := h
  obtain ⟨hi, rfl⟩ := List.getElem?_eq_some_iff.mp ht
  have hlength : i < pieces.length := hcut.length_eq ▸ hi
  refine ⟨pieces[i], hcut.get hlength hi, List.getElem?_eq_getElem hlength, ?_⟩
  have hsplit : pieces.take i ++ pieces[i] :: pieces.drop (i + 1) = pieces := by simp
  rw [List.append_assoc, ← List.flatten_cons, ← List.flatten_append, hsplit]

/--
**The tokens of a pattern are well spaced. However a text that the glob takes is cut among them, the
piece of a `**/` starts where a segment starts and holds whole segments, none of them empty.**
-/
theorem skips_whole_segments (g : Glob) :
    WellSpaced g.tokens ∧ ∀ s : Text,
      (g.accepts s = true ↔ ∃ pieces, Cuts g.tokens s pieces) ∧
      ∀ pieces, Cuts g.tokens s pieces → ∀ i, g.tokens[i]? = some .globstarSlash →
        let front := (pieces.take i).flatten
        let back := (pieces.drop (i + 1)).flatten
        ∃ part, pieces[i]? = some part ∧ s = front ++ part ++ back ∧
          EndsAtSegment front ∧ HoldsSegments front part back := by
  have hspaced := wellSpaced_tokens g
  refine ⟨hspaced, fun s => ⟨?_, fun pieces hcuts i hi => ?_⟩⟩
  · rw [accepts_iff_mem_language, mem_language_iff_exists_cuts]
  · obtain ⟨part, hpart, hget, hwhole⟩ := hcuts.exists_piece hi
    have hchain : (g.tokens.take i ++ [Token.globstarSlash]).IsChain Token.MayPrecede := by
      have htake := hspaced.isChain.take (i + 1)
      rwa [List.take_add_one, hi] at htake
    have hfront : EndsAtSegment (pieces.take i).flatten :=
      @endsAtSegment_of_cut _ [] _ hchain (fun _ => .inl rfl) (List.forall₂_take i hcuts.2)
    exact ⟨part, hget, hwhole, hfront, hfront.holdsSegments hpart _⟩

/-- The second of two double stars takes a segment behind the segment of the first. -/
theorem skips_whole_segments_second :
    let g : Glob := ⟨"a/**/**/[!b]*c".toList, [.literal ['a'], .separator, .globstarSlash,
      .globstarSlash, .bracket "[!b]".toList ⟨true, [.single 'b']⟩, .star, .literal ['c']],
      by decide +kernel⟩
    let s := "a/x/yz/d.c".toList
    let pieces := ["a", "/", "x/", "yz/", "d", ".", "c"].map String.toList
    (Cuts g.tokens s pieces ∧ g.tokens[3]? = some .globstarSlash) ∧
      ∃ part, pieces[3]? = some part ∧ s = "a/x/".toList ++ part ++ "d.c".toList ∧
        EndsAtSegment "a/x/".toList ∧ HoldsSegments "a/x/".toList part "d.c".toList := by
  intro g s pieces
  have hone (t : Text) (hne : t ≠ []) (hslash : '/' ∉ t) : t ++ ['/'] ∈ wholeSegment∗ :=
    (le_kstar : wholeSegment ≤ wholeSegment∗) ⟨t, hne, hslash, rfl⟩
  have hset : ['d'] ∈ oneCharacter (CharSet.Holds ⟨true, [.single 'b']⟩) :=
    ⟨'d', CharSet.accepts_iff_holds.mp (by decide), rfl⟩
  have hcuts : Cuts g.tokens s pieces :=
    ⟨rfl, .cons rfl <| .cons rfl <| .cons (hone ['x'] (by decide) (by decide)) <|
      .cons (hone ['y', 'z'] (by decide) (by decide)) <| .cons hset <|
      .cons (mem_slashFree.mpr (by decide)) <| .cons rfl .nil⟩
  exact ⟨⟨hcuts, rfl⟩, ((skips_whole_segments g).2 s).2 pieces hcuts 3 rfl⟩

end PathIgnore.Glob
