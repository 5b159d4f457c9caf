import PathIgnore.Proofs.Glob.Joined
import PathIgnore.Text.Blank

/-!
# Patterns that stand for one text

A backslash in front of a character takes any meaning away from it. A pattern of such characters, and of
characters that have no meaning anyway, spells a text (`Spells`): it reads as one literal
(`readSegment_of_spells`). Spelled segments with slashes between them read as literals with separators
between them, and the glob takes the one text that they write (`exists_glob_of_spells`).
-/

namespace PathIgnore.Glob

/-- The text with a backslash in front of every character. -/
def escaped (w : Text) : Text := w.flatMap fun c => ['\\', c]

/-- The characters that start an operator, an escape or a new segment. -/
def meaningful : List Char := ['*', '?', '[', '\\', '/']

/-- The pattern writes a text character by character: with a backslash in front, or as it is where the
character has no meaning. -/
inductive Spells : Text → Text → Prop
  | nil : Spells [] []
  | escape {t w : Text} (c : Char) (h : Spells t w) : Spells ('\\' :: c :: t) (c :: w)
  | plain {t w : Text} {c : Char} (hc : c ∉ meaningful) (h : Spells t w) : Spells (c :: t) (c :: w)

/-! ## Spelling -/

@[simp] theorem escaped_nil : escaped [] = [] := rfl

@[simp] theorem escaped_cons (c : Char) (w : Text) : escaped (c :: w) = '\\' :: c :: escaped w := rfl

theorem escaped_append (w v : Text) : escaped (w ++ v) = escaped w ++ escaped v := List.flatMap_append

theorem spells_escaped : ∀ w : Text, Spells (escaped w) w
  | [] => .nil
  | c :: w => .escape c (spells_escaped w)

theorem Spells.append {t w u v : Text} (h : Spells t w) (h' : Spells u v) :
    Spells (t ++ u) (w ++ v) := by
  induction h with
  | nil => exact h'
  | escape c _ ih => exact .escape c ih
  | plain hc _ ih => exact .plain hc ih

theorem not_meaningful_of_isBlank {c : Char} (h : isBlank c = true) : c ∉ meaningful := by
  intro hc
  have hany : meaningful.any isBlank = false := by decide
  exact List.any_eq_false.mp hany c hc h

/-- A pattern that spells no empty text ends as the text does. -/
theorem Spells.getLast?_eq {t w : Text} (h : Spells t w) : t.getLast? = w.getLast? := by
  induction h with
  | nil => rfl
  | escape c h ih =>
    rw [List.getLast?_cons_cons, List.getLast?_cons, List.getLast?_cons, ih]
  | plain hc h ih => rw [List.getLast?_cons, List.getLast?_cons, ih]

theorem Spells.mem_of_slash {t w : Text} (h : Spells t w) (hslash : '/' ∈ t) : '/' ∈ w := by
  induction h with
  | nil => exact hslash
  | escape c h ih =>
    rcases List.mem_cons.mp hslash with hback | hrest
    · cases hback
    · rcases List.mem_cons.mp hrest with hc | hrest
      · exact hc ▸ List.mem_cons_self
      · exact List.mem_cons_of_mem _ (ih hrest)
  | plain hc h ih =>
    rcases List.mem_cons.mp hslash with hc' | hrest
    · exact hc' ▸ List.mem_cons_self
    · exact List.mem_cons_of_mem _ (ih hrest)

/-- Such a pattern starts with a backslash or with a character that has no meaning. -/
theorem Spells.head?_ne {t w : Text} (h : Spells t w) {c : Char} (hc : c ∈ meaningful)
    (hback : c ≠ '\\') : t.head? ≠ some c := by
  rintro hhead
  cases h with
  | nil => cases hhead
  | escape d h =>
    cases hhead
    exact hback rfl
  | plain hd h =>
    cases hhead
    exact hd hc

theorem Spells.ne_nil {t w : Text} (h : Spells t w) (hw : w ≠ []) : t ≠ [] := by
  cases h with
  | nil => exact hw
  | escape => exact List.cons_ne_nil _ _
  | plain => exact List.cons_ne_nil _ _

/-! ## Reading -/

theorem readAtom_plain {c : Char} (hc : c ∉ meaningful) (r : Text) :
    readAtom c r = .ok (.literal [c], r) := by
  have hne : ∀ d ∈ meaningful, c ≠ d := fun d hd h => hc (h ▸ hd)
  unfold readAtom readPlain
  rw [if_neg (hne '*' (by decide)), if_neg (hne '?' (by decide)), if_neg (hne '[' (by decide)),
    if_neg (hne '\\' (by decide))]

/-- A literal in front of a literal is one literal. -/
theorem prepend_literal_prepend (t u : Text) (ts : List Token) :
    Token.prepend (.literal t) (Token.prepend (.literal u) ts) = Token.prepend (.literal (t ++ u)) ts := by
  rcases ts with _ | ⟨token, ts⟩
  · rfl
  · cases token with
    | literal v =>
      show [Token.literal (t ++ (u ++ v))] ++ ts = [Token.literal (t ++ u ++ v)] ++ ts
      rw [List.append_assoc]
    | star | globstar | globstarSlash | anyChar | bracket | separator => rfl

theorem readSegment_literal {d c : Char} {x u w s : Text} {ts us : List Token} (hd : d ≠ '/')
    (hatom : readAtom d x = .ok (.literal [c], u)) (hu : readSegment u = .ok (us, s))
    (hus : Token.prepend (.literal [c]) us = Token.prepend (.literal (c :: w)) ts) :
    readSegment (d :: x) = .ok (Token.prepend (.literal (c :: w)) ts, s) := by
  rw [readSegment_of_ok hd hatom, hu, ← hus]
  rfl

/-- **What a pattern spells is read as one literal**, in front of what follows in the segment. -/
theorem readSegment_of_spells {t w r s : Text} {ts : List Token} (h : Spells t w) (hw : w ≠ [])
    (hr : readSegment r = .ok (ts, s)) :
    readSegment (t ++ r) = .ok (Token.prepend (.literal w) ts, s) := by
  -- The rest of a spelled text is empty, or one literal by the induction hypothesis.
  have hrest : ∀ {t w : Text}, Spells t w →
      (w ≠ [] → readSegment (t ++ r) = .ok (Token.prepend (.literal w) ts, s)) →
      ∃ us, readSegment (t ++ r) = .ok (us, s) ∧
        ∀ c, Token.prepend (.literal [c]) us = Token.prepend (.literal (c :: w)) ts := by
    intro t w h ih
    cases w with
    | nil =>
      cases h
      exact ⟨ts, hr, fun c => rfl⟩
    | cons d w => exact ⟨_, ih (by simp), fun c => prepend_literal_prepend [c] (d :: w) ts⟩
  induction h with
  | nil => exact absurd rfl hw
  | @escape t w c h ih =>
    obtain ⟨us, hus, hjoin⟩ := hrest h ih
    exact readSegment_literal (by decide) rfl hus (hjoin c)
  | @plain t w c hc h ih =>
    obtain ⟨us, hus, hjoin⟩ := hrest h ih
    have hslash : c ≠ '/' := by
      rintro rfl
      exact hc (by decide)
    exact readSegment_literal hslash (readAtom_plain hc _) hus (hjoin c)

/-- The tokens of texts with separators between them. -/
def literals (ws : List Text) : List Token := [Token.separator].intercalate (ws.map ([.literal ·]))

theorem literals_cons_cons (w v : Text) (ws : List Text) :
    literals (w :: v :: ws) = [.literal w] ++ .separator :: literals (v :: ws) := by
  rw [literals, List.map_cons, List.map_cons, List.intercalate_cons_cons]
  rfl

/-- **Spelled segments read as literals with separators between them.** -/
theorem readSegments_of_spells {ts ws : List Text} (h : List.Forall₂ Spells ts ws) (hne : ws ≠ [])
    (hws : ∀ w ∈ ws, w ≠ []) : readSegments (['/'].intercalate ts) = .ok (literals ws) := by
  induction h with
  | nil => exact absurd rfl hne
  | @cons t w ts ws ht hts ih =>
    have hw := hws w List.mem_cons_self
    have hhead : ∀ u, (t ++ u).head? ≠ some '*' := by
      intro u
      obtain ⟨c, t', rfl⟩ := List.exists_cons_of_ne_nil (ht.ne_nil hw)
      exact ht.head?_ne (by decide) (by decide)
    cases hts with
    | nil =>
      have hsegment : readSegment (t ++ []) = .ok ([.literal w], []) :=
        readSegment_of_spells ht hw (by rw [readSegment])
      have hlast := readSegments_of_last (afterGlobstar?_eq_none (hhead [])) (by simp) hsegment
      rw [List.append_nil] at hlast
      simpa [literals] using hlast
    | @cons u v us vs hu hus =>
      have hv := hws v (by simp)
      obtain ⟨c, r, hr⟩ := List.exists_cons_of_ne_nil
        (l := ['/'].intercalate (u :: us)) (by
          obtain ⟨c, u', rfl⟩ := List.exists_cons_of_ne_nil (hu.ne_nil hv)
          cases us <;> simp)
      have hnext := ih (by simp) fun x hx => hws x (List.mem_cons_of_mem _ hx)
      have hstop : readSegment ('/' :: c :: r) = .ok ([], '/' :: c :: r) := by
        rw [readSegment, if_pos rfl]
      have hsegment : readSegment (t ++ '/' :: c :: r) = .ok ([.literal w], '/' :: c :: r) :=
        readSegment_of_spells ht hw hstop
      have hwhole : ['/'].intercalate (t :: u :: us) = t ++ '/' :: c :: r := by
        rw [List.intercalate_cons_cons, hr, List.append_assoc]
        rfl
      rw [hwhole, readSegments_of_segment (afterGlobstar?_eq_none (hhead _)) (by simp) hsegment, ← hr,
        hnext, literals_cons_cons]
      rfl

/-! ## Matching -/

theorem mem_language_literals_iff {ws : List Text} (hne : ws ≠ []) {s : Text} :
    s ∈ language (literals ws) ↔ s = ['/'].intercalate ws := by
  have hone : ∀ w x : Text, x ∈ language [.literal w] ↔ x = w := by
    intro w x
    rw [language, List.map_singleton, List.prod_singleton]
    exact Iff.rfl
  induction ws generalizing s with
  | nil => exact absurd rfl hne
  | cons w ws ih =>
    cases ws with
    | nil => simpa [literals] using hone w s
    | cons v ws =>
      rw [literals_cons_cons, mem_language_joined_iff, List.intercalate_cons_cons]
      constructor
      · rintro ⟨x, y, rfl, hx, hy⟩
        rw [(hone w x).mp hx, (ih (by simp)).mp hy]
        simp
      · rintro rfl
        exact ⟨w, _, by simp, (hone w w).mpr rfl, (ih (by simp)).mpr rfl⟩

/-- **Spelled segments with slashes between them are a glob that takes the text they write and no
other.** -/
theorem exists_glob_of_spells {ts ws : List Text} (h : List.Forall₂ Spells ts ws) (hne : ws ≠ [])
    (hws : ∀ w ∈ ws, w ≠ []) :
    ∃ g : Glob, compile (['/'].intercalate ts) = .ok g ∧
      ∀ s, g.accepts s = true ↔ s = ['/'].intercalate ws := by
  have hstart : ['/'].intercalate ts ≠ [] ∧ (['/'].intercalate ts).head? ≠ some '/' := by
    cases h with
    | nil => exact absurd rfl hne
    | @cons t w ts ws ht hts =>
      have hhead := ht.head?_ne (c := '/') (by decide) (by decide)
      obtain ⟨c, t', rfl⟩ := List.exists_cons_of_ne_nil (ht.ne_nil (hws w List.mem_cons_self))
      cases ts with
      | nil => simpa using hhead
      | cons u us => simpa [List.intercalate_cons_cons] using hhead
  have hread : tokenize (['/'].intercalate ts) = .ok (literals ws) := by
    rw [tokenize_eq_ok_iff, readPattern_of_head? hstart.1 hstart.2]
    exact readSegments_of_spells h hne hws
  refine ⟨⟨_, _, hread⟩, compile_eq_ok_iff.mpr ⟨rfl, hread⟩, fun s => ?_⟩
  rw [accepts_iff_mem_language, mem_language_literals_iff hne]

end PathIgnore.Glob
