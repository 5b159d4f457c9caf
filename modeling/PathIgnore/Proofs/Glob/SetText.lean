import PathIgnore.Proofs.Glob.Joined

/-!
# How a set is written

The text of a set, member by member, as a relation (`ReadsMember`, `ReadsMembers`). The reader looks
past a member in two places: a dash may make a range of it, and after `[:` a `:]` that comes anywhere
later makes a class of it. So the relations name the text that follows as well.

* `readMember_eq_ok_iff`, `readMembers_eq_ok_iff`: the readers find what the relations say.
* `ReadsMembers.before`: of what follows a set, the reader only notices whether a `:]` is in it.
* `exists_source_of_readAtom`: the same for a whole set, from its opening bracket on.
-/

namespace PathIgnore.Glob

/-! ## Ends of classes -/

/-- The end of a class is not made of the ends of two texts, unless the first ends in a colon and the
second starts with a bracket. -/
theorem classEnd_infix_append {a b : Text} (h : a.getLast? ≠ some ':' ∨ b.head? ≠ some ']')
    (hend : classEnd <:+: a ++ b) : classEnd <:+: a ∨ classEnd <:+: b := by
  rcases List.infix_append_iff_ne_nil.mp hend with ha | hb | ⟨l, r, hl, hr, heq, ha, hb⟩
  · exact .inl ha
  · exact .inr hb
  · obtain ⟨c, l, rfl⟩ := List.exists_cons_of_ne_nil hl
    obtain ⟨d, r, rfl⟩ := List.exists_cons_of_ne_nil hr
    have hlength := congrArg List.length heq
    simp only [classEnd, List.length_append, List.length_cons, List.length_nil] at hlength
    obtain rfl : l = [] := List.length_eq_zero_iff.mp (by omega)
    cases heq
    obtain ⟨front, rfl⟩ := ha
    obtain ⟨back, rfl⟩ := hb
    simp at h

theorem cutAtClassEnd_of_not_mem {name : Text} (h : ':' ∉ name) (s : Text) :
    cutAtClassEnd (name ++ ':' :: ']' :: s) = some (name, s) := by
  induction name with
  | nil => simp [cutAtClassEnd]
  | cons c name ih =>
    rw [List.mem_cons, not_or] at h
    rw [List.cons_append, cutAtClassEnd, if_neg fun hc => h.1 hc.1.symm, ih h.2]
    rfl

/-! ## Members -/

/-- A class starts here: `[:` does, and a `:]` follows anywhere. -/
def StartsClass (t : Text) : Prop := ∃ u, t = '[' :: ':' :: u ∧ classEnd <:+: u

/-- A dash makes a range of the member before it, except in front of the closing bracket. -/
def StartsRange (t : Text) : Prop := ∃ c u, t = '-' :: c :: u ∧ c ≠ ']'

/-- The text writes one character: as it is, or with a backslash in front. -/
inductive SpellsPlain : Text → Char → Prop
  | plain {c : Char} (hc : c ≠ '\\') : SpellsPlain [c] c
  | escape (c : Char) : SpellsPlain ['\\', c] c

/-- In front of `rest`, the text is one member of a set. -/
inductive ReadsMember (rest : Text) : Text → Member → Prop
  | posix (k : CharClass) : ReadsMember rest ('[' :: ':' :: (k.name ++ classEnd)) (.posix k)
  | single {t : Text} {c : Char} (h : SpellsPlain t c) (hclass : ¬ StartsClass (t ++ rest))
      (hrange : ¬ StartsRange rest) : ReadsMember rest t (.single c)
  | range {t u : Text} {lo hi : Char} (hlo : SpellsPlain t lo) (hhi : SpellsPlain u hi)
      (hu : u.head? ≠ some ']') : ReadsMember rest (t ++ '-' :: u) (.range lo hi)

theorem className?_eq_none_iff {c : Char} {r : Text} :
    className? c r = none ↔ ¬ StartsClass (c :: r) := by
  unfold className? StartsClass
  cases r with
  | nil => simp
  | cons d r =>
    split
    · next h =>
      obtain ⟨rfl, hd⟩ := h
      cases hd
      rw [List.tail_cons, cutAtClassEnd_eq_none_iff]
      exact not_congr ⟨fun h => ⟨r, rfl, h⟩, fun ⟨u, heq, h⟩ => by cases heq; exact h⟩
    · next h =>
      refine iff_of_true rfl ?_
      rintro ⟨u, heq, -⟩
      cases heq
      exact h ⟨rfl, rfl⟩

theorem readPlain_eq_ok_iff {c d : Char} {r s : Text} :
    readPlain c r = .ok (d, s) ↔ ∃ t, c :: r = t ++ s ∧ SpellsPlain t d := by
  constructor
  · intro h
    unfold readPlain at h
    split at h
    · next hc =>
      subst hc
      cases r with
      | nil => cases h
      | cons e r =>
        cases h
        exact ⟨_, rfl, .escape _⟩
    · next hc =>
      cases h
      exact ⟨_, rfl, .plain hc⟩
  · rintro ⟨t, heq, ht⟩
    cases ht with
    | plain hc =>
      cases heq
      unfold readPlain
      rw [if_neg hc]
      rfl
    | escape =>
      cases heq
      rfl

theorem SpellsPlain.head?_append {t : Text} {c : Char} (h : SpellsPlain t c) (u : Text) :
    (t ++ u).head? = t.head? := by
  cases h <;> rfl

theorem readHigh_of_not_startsRange {s : Text} (h : ¬ StartsRange s) (lo : Char) :
    readHigh lo s = .ok (.single lo, s) := by
  unfold readHigh
  split
  · next c u => rw [if_pos (Classical.byContradiction fun hc => h ⟨c, u, rfl, hc⟩)]
  · rfl

theorem readHigh_eq_ok_iff {lo : Char} {s rest : Text} {m : Member} :
    readHigh lo s = .ok (m, rest) ↔
      (m = .single lo ∧ s = rest ∧ ¬ StartsRange rest) ∨
      ∃ u hi, m = .range lo hi ∧ s = '-' :: (u ++ rest) ∧ u.head? ≠ some ']' ∧ SpellsPlain u hi := by
  constructor
  · intro h
    by_cases hrange : StartsRange s
    · obtain ⟨c, v, rfl, hc⟩ := hrange
      simp only [readHigh, if_neg hc] at h
      cases hplain : readPlain c v with
      | error e =>
        rw [hplain] at h
        cases h
      | ok found =>
        rw [hplain] at h
        cases h
        obtain ⟨u, heq, hu⟩ := readPlain_eq_ok_iff.mp hplain
        refine .inr ⟨u, _, rfl, by rw [heq], ?_, hu⟩
        rw [← hu.head?_append, ← heq]
        simpa using hc
    · rw [readHigh_of_not_startsRange hrange] at h
      cases h
      exact .inl ⟨rfl, rfl, hrange⟩
  · rintro (⟨rfl, rfl, hrange⟩ | ⟨u, hi, rfl, rfl, hhead, hu⟩)
    · exact readHigh_of_not_startsRange hrange lo
    · have hread (c : Char) (v : Text) (heq : c :: v = u ++ rest) :
          readHigh lo ('-' :: c :: v) = .ok (.range lo hi, rest) := by
        rw [← hu.head?_append rest, ← heq] at hhead
        simp only [readHigh, if_neg (by simpa using hhead), readPlain_eq_ok_iff.mpr ⟨u, heq, hu⟩]
      cases hu with
      | plain => exact hread _ _ rfl
      | escape => exact hread _ _ rfl

theorem SpellsPlain.not_startsClass {t : Text} {c : Char} (h : SpellsPlain t c) (u : Text) :
    ¬ StartsClass (t ++ '-' :: u) := by
  rintro ⟨v, heq, -⟩
  cases h <;> cases heq

/-- **A member is read where the text writes one.** -/
theorem readMember_eq_ok_iff {c : Char} {r rest : Text} {m : Member} :
    readMember c r = .ok (m, rest) ↔ ∃ t, c :: r = t ++ rest ∧ ReadsMember rest t m := by
  constructor
  · intro h
    cases hclass : className? c r with
    | some found =>
      obtain ⟨name, s⟩ := found
      rw [readMember, hclass] at h
      dsimp only at h
      split at h
      · next k hk =>
        cases h
        unfold className? at hclass
        split at hclass
        · next hstart =>
          obtain ⟨rfl, hhead⟩ := hstart
          obtain ⟨u, rfl⟩ := List.head?_eq_some_iff.mp hhead
          obtain rfl := eq_of_cutAtClassEnd hclass
          exact ⟨_, by simp [classEnd, CharClass.name_of_ofName? hk], .posix k⟩
        · cases hclass
      · cases h
    | none =>
      rw [readMember_of_className? hclass] at h
      cases hplain : readPlain c r with
      | error e =>
        rw [hplain] at h
        cases h
      | ok found =>
        obtain ⟨lo, s⟩ := found
        rw [hplain] at h
        obtain ⟨t, heq, ht⟩ := readPlain_eq_ok_iff.mp hplain
        rcases readHigh_eq_ok_iff.mp h with ⟨rfl, rfl, hrange⟩ | ⟨u, hi, rfl, rfl, hu, hhi⟩
        · exact ⟨t, heq, .single ht (heq ▸ className?_eq_none_iff.mp hclass) hrange⟩
        · exact ⟨t ++ '-' :: u, by simp [heq], .range ht hhi hu⟩
  · rintro ⟨t, heq, h⟩
    cases h with
    | posix k =>
      rw [List.cons_append, List.cons.injEq] at heq
      obtain ⟨rfl, rfl⟩ := heq
      have hname : className? '[' (':' :: (k.name ++ classEnd) ++ rest) = some (k.name, rest) := by
        show (if _ then cutAtClassEnd (k.name ++ classEnd ++ rest) else none) = _
        rw [if_pos ⟨rfl, rfl⟩, List.append_assoc]
        exact cutAtClassEnd_of_not_mem (CharClass.colon_not_mem_name k) rest
      rw [readMember, hname]
      dsimp only
      rw [CharClass.ofName?_name]
    | single ht hclass hrange =>
      rw [readMember_of_className? (className?_eq_none_iff.mpr (heq ▸ hclass)),
        readPlain_eq_ok_iff.mpr ⟨t, heq, ht⟩]
      exact readHigh_eq_ok_iff.mpr (.inl ⟨rfl, rfl, hrange⟩)
    | @range t u lo hi hlo hhi hu =>
      rw [List.append_assoc] at heq
      rw [readMember_of_className? (className?_eq_none_iff.mpr (heq ▸ hlo.not_startsClass _)),
        readPlain_eq_ok_iff.mpr ⟨t, heq, hlo⟩]
      exact readHigh_eq_ok_iff.mpr (.inr ⟨u, hi, rfl, rfl, hu, hhi⟩)

/-! ## Sets -/

/-- In front of `rest`, the text is the members of a set with the closing bracket. -/
inductive ReadsMembers (rest : Text) : Text → List Member → Prop
  | close : ReadsMembers rest [']'] []
  | member {t u : Text} {m : Member} {ms : List Member} (h : ReadsMember (u ++ rest) t m)
      (ht : t.head? ≠ some ']') (hrest : ReadsMembers rest u ms) :
      ReadsMembers rest (t ++ u) (m :: ms)

theorem ReadsMember.ne_nil {rest t : Text} {m : Member} (h : ReadsMember rest t m) : t ≠ [] := by
  cases h with
  | posix => exact List.cons_ne_nil _ _
  | single ht => cases ht <;> exact List.cons_ne_nil _ _
  | range => simp

theorem ReadsMembers.getLast? {rest t : Text} {ms : List Member} (h : ReadsMembers rest t ms) :
    t.getLast? = some ']' := by
  induction h with
  | close => rfl
  | member _ _ _ ih => rw [List.getLast?_append, ih, Option.some_or]

/-- **The members of a set are read where the text writes them**, at least one if none is read yet. -/
theorem readMembers_eq_ok_iff {opening t rest : Text} {isFirst : Bool} {ms : List Member} :
    readMembers opening isFirst t = .ok (ms, rest) ↔
      (isFirst = true → ms ≠ []) ∧ ∃ u, t = u ++ rest ∧ ReadsMembers rest u ms := by
  constructor
  · intro h
    fun_induction readMembers opening isFirst t generalizing ms rest with
    | case1 => cases h
    | case2 => cases h
    | case3 isFirst r hfirst =>
      cases h
      exact ⟨fun h => absurd h hfirst, [']'], rfl, .close⟩
    | case4 => cases h
    | case5 => cases h
    | case6 isFirst c r hc m s hmember ms' v hrest ih =>
      cases h
      obtain ⟨-, u, rfl, hu⟩ := ih hrest
      obtain ⟨t, heq, ht⟩ := readMember_eq_ok_iff.mp hmember
      refine ⟨fun _ => List.cons_ne_nil _ _, t ++ u, by rw [heq, List.append_assoc], .member ht ?_ hu⟩
      obtain ⟨d, t, rfl⟩ := List.exists_cons_of_ne_nil ht.ne_nil
      cases heq
      simpa using hc
  · rintro ⟨hfirst, u, rfl, h⟩
    induction h generalizing isFirst with
    | close =>
      rw [List.singleton_append, readMembers, if_pos rfl, if_neg fun h => hfirst h rfl]
    | @member t u m ms h ht hrest ih =>
      obtain ⟨c, t, rfl⟩ := List.exists_cons_of_ne_nil h.ne_nil
      have hmember : readMember c (t ++ (u ++ rest)) = .ok (m, u ++ rest) :=
        readMember_eq_ok_iff.mpr ⟨c :: t, rfl, h⟩
      rw [List.append_assoc, List.cons_append, readMembers_of_ok (by simpa using ht) hmember,
        @ih false fun h => absurd h Bool.false_ne_true]
      rfl

variable {rest x : Text}

theorem StartsRange.of_append {t : Text} (hend : t.getLast? = some ']')
    (h : StartsRange (t ++ x)) : StartsRange (t ++ rest) := by
  obtain ⟨c, u, heq, hc⟩ := h
  match t with
  | [] => cases hend
  | [d] =>
    cases hend
    cases heq
  | d :: e :: t =>
    cases heq
    exact ⟨c, t ++ rest, rfl, hc⟩

theorem StartsClass.of_append {t : Text} (hend : t.getLast? = some ']')
    (hx : classEnd <:+: x → classEnd <:+: rest) (h : StartsClass (t ++ x)) :
    StartsClass (t ++ rest) := by
  obtain ⟨u, heq, hu⟩ := h
  match t with
  | [] => cases hend
  | [d] =>
    cases hend
    cases heq
  | d :: e :: t =>
    cases heq
    have hlast : t.getLast? ≠ some ':' := by
      intro hlast
      rw [List.getLast?_cons_cons, List.getLast?_cons, hlast] at hend
      cases hend
    refine ⟨t ++ rest, rfl, ?_⟩
    rcases classEnd_infix_append (.inl hlast) hu with hin | hin
    · exact hin.trans (List.prefix_append t rest).isInfix
    · exact (hx hin).trans (List.suffix_append t rest).isInfix

/-- **Of what follows a set, the reader only notices whether a `:]` is in it.** -/
theorem ReadsMembers.before {t : Text} {ms : List Member} (h : ReadsMembers rest t ms)
    (hx : classEnd <:+: x → classEnd <:+: rest) : ReadsMembers x t ms := by
  induction h with
  | close => exact .close
  | @member t u m ms h ht hrest ih =>
    refine .member ?_ ht ih
    have hend := hrest.getLast?
    cases h with
    | posix k => exact .posix k
    | single hspell hclass hrange =>
      refine .single hspell (fun hstart => hclass ?_) fun hstart => hrange (hstart.of_append hend)
      rw [← List.append_assoc] at hstart ⊢
      refine hstart.of_append ?_ hx
      rw [List.getLast?_append, hend, Option.some_or]
    | range hlo hhi hu => exact .range hlo hhi hu

/-- The set in front of the bracket that closes it: its sign and its members. -/
theorem readSet_append_eq_ok_iff {body : Text} {set : CharSet} (hbody : body ≠ []) :
    readSet (body ++ rest) = .ok (set, rest) ↔
      set.negated = decide (body.head? = some '^' ∨ body.head? = some '!') ∧ set.members ≠ [] ∧
        ReadsMembers rest (afterNegation body) set.members := by
  have hhead : (body ++ rest).head? = body.head? := by
    rw [List.head?_append, List.head?_eq_some_head hbody, Option.some_or]
  rw [readSet_eq, afterNegation_append hbody, hhead]
  constructor
  · intro h
    cases hmembers : readMembers ('[' :: (body ++ rest)) true (afterNegation body ++ rest) with
    | error e =>
      rw [hmembers] at h
      cases h
    | ok found =>
      rw [hmembers] at h
      cases h
      obtain ⟨hne, u, heq, hu⟩ := readMembers_eq_ok_iff.mp hmembers
      exact ⟨rfl, hne rfl, List.append_cancel_right heq ▸ hu⟩
  · rintro ⟨hnegated, hne, hmembers⟩
    rw [readMembers_eq_ok_iff.mpr ⟨fun _ => hne, _, rfl, hmembers⟩]
    show Except.ok (CharSet.mk _ set.members, rest) = _
    rw [← hnegated]

theorem readAtom_bracket (r : Text) :
    readAtom '[' r = (readSet r).map fun (set, s) =>
      (.bracket (('[' :: r).take (r.length + 1 - s.length)) set, s) := by
  unfold readAtom
  rw [if_neg (by decide), if_neg (by decide), if_pos rfl]
  cases readSet r <;> rfl

theorem readAtom_append_of_readSet {body : Text} {set : CharSet}
    (h : readSet (body ++ rest) = .ok (set, rest)) :
    readAtom '[' (body ++ rest) = .ok (.bracket ('[' :: body) set, rest) := by
  have hlength : (body ++ rest).length + 1 - rest.length = body.length + 1 := by
    rw [List.length_append]
    omega
  have hsource : ('[' :: (body ++ rest)).take ((body ++ rest).length + 1 - rest.length) =
      '[' :: body := by
    rw [hlength, List.take_succ_cons, List.take_left' rfl]
  rw [readAtom_bracket, h, ← hsource]
  rfl

theorem getLast?_of_readSet {body : Text} {set : CharSet} (hbody : body ≠ [])
    (h : readSet (body ++ rest) = .ok (set, rest)) : body.getLast? = some ']' := by
  obtain ⟨-, -, hmembers⟩ := (readSet_append_eq_ok_iff hbody).mp h
  have hend := hmembers.getLast?
  unfold afterNegation at hend
  split at hend
  · obtain ⟨c, body, rfl⟩ := List.exists_cons_of_ne_nil hbody
    rw [List.getLast?_cons, show body.getLast? = some ']' from hend]
    rfl
  · exact hend

/-- **A set is read the same in front of any text**, as long as no `:]` comes in that was not there. -/
theorem exists_source_of_readAtom {r : Text} {t : Token} (h : readAtom '[' r = .ok (t, rest)) :
    ∃ body set, r = body ++ rest ∧ t = .bracket ('[' :: body) set ∧ body.getLast? = some ']' ∧
      ∀ x, (classEnd <:+: x → classEnd <:+: rest) →
        readAtom '[' (body ++ x) = .ok (.bracket ('[' :: body) set, x) := by
  obtain ⟨body, rfl⟩ := isSuffix_of_readAtom h
  cases hset : readSet (body ++ rest) with
  | error e =>
    rw [readAtom_bracket, hset] at h
    cases h
  | ok found =>
    obtain ⟨set, s⟩ := found
    obtain rfl : s = rest := by
      rw [readAtom_bracket, hset] at h
      cases h
      rfl
    rw [readAtom_append_of_readSet hset] at h
    cases h
    have hbody : body ≠ [] := by
      rintro rfl
      exact Nat.lt_irrefl _ (length_lt_of_readSet hset)
    refine ⟨body, set, rfl, rfl, getLast?_of_readSet hbody hset, fun x hx => ?_⟩
    obtain ⟨hnegated, hne, hmembers⟩ := (readSet_append_eq_ok_iff hbody).mp hset
    exact readAtom_append_of_readSet
      ((readSet_append_eq_ok_iff hbody).mpr ⟨hnegated, hne, hmembers.before hx⟩)

end PathIgnore.Glob
