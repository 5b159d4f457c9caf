/-!
# Texts

A text is a list of code points. Paths, patterns and lines are texts; offsets into them count code
points. This module adds what core lists lack: dropping and taking the run at the *end* of a text on
which a test holds.
-/

namespace PathIgnore

/-- A text is its list of code points. -/
abbrev Text := List Char

namespace Text

/-- The text without the longest run at its end on which `p` holds. -/
def dropEndWhile (p : Char → Bool) (t : Text) : Text := (t.reverse.dropWhile p).reverse

/-- The longest run at the end of the text on which `p` holds. -/
def takeEndWhile (p : Char → Bool) (t : Text) : Text := (t.reverse.takeWhile p).reverse

/-- The text without the runs at both ends on which `p` holds. -/
def trim (p : Char → Bool) (t : Text) : Text := dropEndWhile p (t.dropWhile p)

/-- Cutting off the run at the end loses nothing. -/
theorem dropEndWhile_append_takeEndWhile (p : Char → Bool) (t : Text) :
    dropEndWhile p t ++ takeEndWhile p t = t := by
  rw [dropEndWhile, takeEndWhile, ← List.reverse_append, List.takeWhile_append_dropWhile,
    List.reverse_reverse]

theorem dropEndWhile_isPrefix (p : Char → Bool) (t : Text) : dropEndWhile p t <+: t :=
  ⟨takeEndWhile p t, dropEndWhile_append_takeEndWhile p t⟩

/-- On a text that ends in `c`, the run at the end is empty or takes `c` with it. -/
theorem dropEndWhile_concat (p : Char → Bool) (t : Text) (c : Char) :
    dropEndWhile p (t ++ [c]) = if p c then dropEndWhile p t else t ++ [c] := by
  simp only [dropEndWhile, List.reverse_append, List.reverse_cons, List.reverse_nil, List.nil_append,
    List.singleton_append, List.dropWhile_cons]
  split <;> simp

theorem takeEndWhile_concat (p : Char → Bool) (t : Text) (c : Char) :
    takeEndWhile p (t ++ [c]) = if p c then takeEndWhile p t ++ [c] else [] := by
  simp only [takeEndWhile, List.reverse_append, List.reverse_cons, List.reverse_nil, List.nil_append,
    List.singleton_append, List.takeWhile_cons]
  split <;> simp

/-- Every character of the run at the end passes the test. -/
theorem of_mem_takeEndWhile {p : Char → Bool} {t : Text} {c : Char}
    (h : c ∈ takeEndWhile p t) : p c = true :=
  List.all_eq_true.mp List.all_takeWhile c (List.mem_reverse.mp h)

theorem length_dropEndWhile_le (p : Char → Bool) (t : Text) :
    (dropEndWhile p t).length ≤ t.length := by
  have h := congrArg List.length (dropEndWhile_append_takeEndWhile p t)
  rw [List.length_append] at h
  omega

/-- What `isPrefixOf?` leaves is the rest of the text. -/
theorem isPrefixOf?_eq_some_iff {t s r : Text} : t.isPrefixOf? s = some r ↔ t ++ r = s := by
  induction t generalizing s with
  | nil =>
    show some s = some r ↔ r = s
    rw [Option.some.injEq, eq_comm]
  | cons c t ih =>
    cases s with
    | nil =>
      show none = some r ↔ c :: (t ++ r) = []
      simp
    | cons d s =>
      show (if c == d then t.isPrefixOf? s else none) = some r ↔ c :: (t ++ r) = d :: s
      rw [List.cons.injEq, ← ih]
      split <;> simp_all

/-! ## Trimming twice -/

theorem dropWhile_eq_self {p : Char → Bool} {t : Text} (h : ∀ c ∈ t.head?, p c = false) :
    t.dropWhile p = t := by
  cases t with
  | nil => rfl
  | cons c r => simp [h c rfl]

theorem dropEndWhile_eq_self {p : Char → Bool} {t : Text} (h : ∀ c ∈ t.getLast?, p c = false) :
    dropEndWhile p t = t := by
  rw [dropEndWhile, dropWhile_eq_self (by simpa using h), List.reverse_reverse]

/-- After dropping the run at the front, the first character fails the test. -/
theorem head?_dropWhile {p : Char → Bool} {t : Text} : ∀ c ∈ (t.dropWhile p).head?, p c = false := by
  intro c hc
  have := List.head?_dropWhile_not p t
  rw [Option.mem_def.mp hc] at this
  exact this

/-- After dropping the run at the end, the last character fails the test. -/
theorem getLast?_dropEndWhile {p : Char → Bool} {t : Text} :
    ∀ c ∈ (dropEndWhile p t).getLast?, p c = false := by
  intro c hc
  rw [dropEndWhile, List.getLast?_reverse] at hc
  exact head?_dropWhile c hc

/-- Trimming leaves nothing to trim at the front. -/
theorem head?_trim {p : Char → Bool} {t : Text} : ∀ c ∈ (trim p t).head?, p c = false := by
  intro c hc
  refine head?_dropWhile (t := t) c ?_
  rw [← dropEndWhile_append_takeEndWhile p (t.dropWhile p), List.head?_append,
    show (dropEndWhile p (t.dropWhile p)).head? = some c from hc]
  rfl

/-- Trimming twice is trimming once. -/
theorem trim_trim (p : Char → Bool) (t : Text) : trim p (trim p t) = trim p t := by
  have hfront : (trim p t).dropWhile p = trim p t := dropWhile_eq_self head?_trim
  rw [show trim p (trim p t) = dropEndWhile p ((trim p t).dropWhile p) from rfl, hfront]
  exact dropEndWhile_eq_self getLast?_dropEndWhile

end Text

end PathIgnore
