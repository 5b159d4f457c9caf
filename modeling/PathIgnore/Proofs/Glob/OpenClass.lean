import PathIgnore.Glob.Scan

/-!
# Reading a pattern that goes on

A pattern is read with no look at what follows, with one exception: `[:` in the place of a set member
starts the name of a class if `:]` comes anywhere later, be it behind the set or in another segment
(`className?`). A pattern in which a set leaves a class open in this way (`LeavesOpen`) reads as long as
no `:]` is added to it.

Otherwise the readers do not notice that the text goes on with a slash: `readSegment_append` and what is
below it. A class left open that is ended later is an error, because no class has a slash in its name
(`readSegment_refused`).
-/

namespace PathIgnore.Glob

/-- What ends the name of a class. -/
def classEnd : Text := [':', ']']

/-- What stands after the opening bracket of a set and the sign that negates it. -/
def afterNegation (r : Text) : Text :=
  if r.head? = some '^' ∨ r.head? = some '!' then r.tail else r

/-- The text starts with `[:`, and no `:]` follows. -/
def OpensClass (t : Text) : Prop := ∃ u, t = '[' :: ':' :: u ∧ ¬ classEnd <:+: u

/-- In the place of a set member a class is opened. -/
inductive SetLeavesOpen : Text → Prop
  | here {t : Text} (h : OpensClass t) : SetLeavesOpen t
  | later {c : Char} {r s : Text} {m : Member} (hc : c ≠ ']') (h : readMember c r = .ok (m, s))
      (hs : SetLeavesOpen s) : SetLeavesOpen (c :: r)

/-- A set in the text leaves a class open. -/
inductive LeavesOpen : Text → Prop
  | set {r : Text} (h : SetLeavesOpen (afterNegation r)) : LeavesOpen ('[' :: r)
  | later {c : Char} {r s : Text} {t : Token} (h : readAtom c r = .ok (t, s)) (hs : LeavesOpen s) :
      LeavesOpen (c :: r)

variable {q : Text}

/-! ## Names of classes -/

theorem cutAtClassEnd_eq_none_iff {t : Text} : cutAtClassEnd t = none ↔ ¬ classEnd <:+: t := by
  induction t with
  | nil => simp [cutAtClassEnd, classEnd]
  | cons c r ih =>
    have hhere : classEnd <+: c :: r ↔ c = ':' ∧ r.head? = some ']' := by
      unfold classEnd
      rw [List.cons_prefix_cons, eq_comm]
      refine and_congr_right fun _ => ?_
      cases r with
      | nil => simp
      | cons d r => simp [eq_comm]
    rw [List.infix_cons_iff, hhere, cutAtClassEnd]
    split
    · next h => simp [h]
    · next h => simp [h, ih]

theorem cutAtClassEnd_append {t name s : Text} (h : cutAtClassEnd t = some (name, s)) (x : Text) :
    cutAtClassEnd (t ++ x) = some (name, s ++ x) := by
  induction t generalizing name with
  | nil => cases h
  | cons c r ih =>
    rw [cutAtClassEnd] at h
    rw [List.cons_append, cutAtClassEnd]
    cases r with
    | nil => simp [cutAtClassEnd] at h
    | cons d r =>
      have hhead : (d :: r ++ x).head? = (d :: r).head? := rfl
      rw [hhead]
      split at h
      · next hend =>
        cases h
        rw [if_pos hend]
        rfl
      · next hend =>
        obtain ⟨⟨n, u⟩, hcut, heq⟩ := Option.map_eq_some_iff.mp h
        cases heq
        rw [if_neg hend, ih hcut]
        rfl

/-- The end of a class is not made of the end of one text and the slash that follows. -/
theorem cutAtClassEnd_append_slash {t : Text} (h : cutAtClassEnd t = none) (q : Text) :
    cutAtClassEnd (t ++ '/' :: q) =
      (cutAtClassEnd q).map fun (name, s) => (t ++ '/' :: name, s) := by
  induction t with
  | nil =>
    rw [List.nil_append, cutAtClassEnd, if_neg (by simp)]
    rfl
  | cons c r ih =>
    rw [cutAtClassEnd] at h
    rw [List.cons_append, cutAtClassEnd]
    split at h
    · cases h
    · next hend =>
      have hnot : ¬ (c = ':' ∧ (r ++ '/' :: q).head? = some ']') := by
        cases r with
        | nil => simp
        | cons d r => simpa using hend
      rw [if_neg hnot, ih (Option.map_eq_none_iff.mp h), Option.map_map]
      rfl

/-- No class has a slash in its name. -/
theorem ofName?_eq_none_of_slash {name : Text} (h : '/' ∈ name) : CharClass.ofName? name = none := by
  cases hk : CharClass.ofName? name with
  | none => rfl
  | some k =>
    rw [← CharClass.name_of_ofName? hk] at h
    exact absurd h (by cases k <;> decide)

/-! ## Set members -/

theorem readPlain_append {c d : Char} {r s : Text} (h : readPlain c r = .ok (d, s)) (x : Text) :
    readPlain c (r ++ x) = .ok (d, s ++ x) := by
  unfold readPlain at h ⊢
  split at h
  · next hc =>
    cases r with
    | nil => cases h
    | cons e r =>
      cases h
      rw [if_pos hc]
      rfl
  · next hc =>
    cases h
    rw [if_neg hc]

/-- A class that is left open and ended behind the slash has no name. -/
theorem readMember_refused {c : Char} {r : Text} (hopen : OpensClass (c :: r))
    (hq : classEnd <:+: q) : ∃ e, readMember c (r ++ '/' :: q) = .error e := by
  obtain ⟨u, heq, hopen⟩ := hopen
  cases heq
  cases hcut : cutAtClassEnd q with
  | none => exact absurd hq (cutAtClassEnd_eq_none_iff.mp hcut)
  | some found =>
    obtain ⟨name, s⟩ := found
    have hname : className? '[' (':' :: u ++ '/' :: q) = some (u ++ '/' :: name, s) := by
      show (if _ then cutAtClassEnd (u ++ '/' :: q) else none) = _
      rw [if_pos ⟨rfl, rfl⟩, cutAtClassEnd_append_slash (cutAtClassEnd_eq_none_iff.mpr hopen), hcut]
      rfl
    rw [readMember, hname]
    dsimp only
    rw [ofName?_eq_none_of_slash (by simp)]
    exact ⟨_, rfl⟩

theorem className?_append {c : Char} {r : Text} (hr : r ≠ [])
    (hclosed : OpensClass (c :: r) → ¬ classEnd <:+: q) :
    className? c (r ++ '/' :: q) = (className? c r).map fun (name, s) => (name, s ++ '/' :: q) := by
  obtain ⟨d, u, rfl⟩ := List.exists_cons_of_ne_nil hr
  unfold className?
  by_cases hstart : c = '[' ∧ d = ':'
  · obtain ⟨rfl, rfl⟩ := hstart
    show (if _ then cutAtClassEnd (u ++ '/' :: q) else none) =
      (if _ then cutAtClassEnd u else none).map _
    rw [if_pos ⟨rfl, rfl⟩, if_pos ⟨rfl, rfl⟩]
    cases hcut : cutAtClassEnd u with
    | none =>
      have hend := hclosed ⟨u, rfl, cutAtClassEnd_eq_none_iff.mp hcut⟩
      rw [cutAtClassEnd_append_slash hcut, cutAtClassEnd_eq_none_iff.mpr hend]
      rfl
    | some found =>
      rw [cutAtClassEnd_append hcut]
      rfl
  · rw [if_neg (by simpa using hstart), if_neg (by simpa using hstart)]
    rfl

/-- Reads on after the character that is a single member or the low end of a range. -/
def readHigh (lo : Char) (s : Text) : Except Stuck (Member × Text) :=
  match s with
  | '-' :: h :: u =>
    if h = ']' then .ok (.single lo, s)
    else
      match readPlain h u with
      | .error e => .error e
      | .ok (hi, v) => .ok (.range lo hi, v)
  | _ => .ok (.single lo, s)

theorem readMember_of_className? {c : Char} {r : Text} (h : className? c r = none) :
    readMember c r =
      match readPlain c r with
      | .error e => .error e
      | .ok (lo, s) => readHigh lo s := by
  rw [readMember, h]
  rfl

theorem readHigh_of_ne {d : Char} (hd : d ≠ '-') (lo : Char) (v : Text) :
    readHigh lo (d :: v) = .ok (.single lo, d :: v) := by
  unfold readHigh
  split
  · next heq =>
    cases heq
    exact absurd rfl hd
  · rfl

theorem readHigh_append {lo : Char} {u s : Text} {m : Member} (h : readHigh lo u = .ok (m, s))
    (hne : s ≠ []) (hdash : s ≠ ['-']) (x : Text) : readHigh lo (u ++ x) = .ok (m, s ++ x) := by
  cases u with
  | nil =>
    cases h
    exact absurd rfl hne
  | cons d u =>
    by_cases hd : d = '-'
    · subst hd
      cases u with
      | nil =>
        cases h
        exact absurd rfl hdash
      | cons e u =>
        simp only [readHigh, List.cons_append] at h ⊢
        split at h
        · next he =>
          cases h
          rw [if_pos he]
          rfl
        · next he =>
          rw [if_neg he]
          cases hhi : readPlain e u with
          | error fault =>
            rw [hhi] at h
            cases h
          | ok found =>
            rw [hhi] at h
            cases h
            rw [readPlain_append hhi]
    · rw [readHigh_of_ne hd] at h
      cases h
      exact readHigh_of_ne hd lo (u ++ x)

/-- A member that is followed by something, and not by a last dash, reads the same when the text goes
on. -/
theorem readMember_append {c : Char} {r s : Text} {m : Member} (h : readMember c r = .ok (m, s))
    (hne : s ≠ []) (hdash : s ≠ ['-']) (hclosed : OpensClass (c :: r) → ¬ classEnd <:+: q) :
    readMember c (r ++ '/' :: q) = .ok (m, s ++ '/' :: q) := by
  have hr : r ≠ [] := by
    rintro rfl
    have hle := length_le_of_readMember h
    exact hne (List.length_eq_zero_iff.mp (Nat.le_zero.mp hle))
  have hname := className?_append hr hclosed
  cases hclass : className? c r with
  | some found =>
    obtain ⟨name, u⟩ := found
    rw [hclass] at hname
    rw [readMember, hclass] at h
    rw [readMember, hname]
    dsimp only [Option.map] at h ⊢
    cases hk : CharClass.ofName? name with
    | none =>
      rw [hk] at h
      cases h
    | some k =>
      rw [hk] at h
      cases h
      rfl
  | none =>
    rw [hclass] at hname
    rw [readMember_of_className? hclass] at h
    rw [readMember_of_className? hname]
    cases hplain : readPlain c r with
    | error e =>
      rw [hplain] at h
      cases h
    | ok found =>
      obtain ⟨lo, u⟩ := found
      rw [hplain] at h
      rw [readPlain_append hplain]
      exact readHigh_append h hne hdash _

/-! ## Sets -/

/-- After a member that is not the last thing in a set there is more than a dash. -/
theorem ne_dash_of_readMembers {opening s : Text} {isFirst : Bool} {found : List Member × Text}
    (h : readMembers opening isFirst s = .ok found) : s ≠ [] ∧ s ≠ ['-'] := by
  constructor
  · rintro rfl
    rw [readMembers] at h
    cases h
  · rintro rfl
    simp [readMembers, readMember, className?, readPlain] at h

theorem not_setLeavesOpen_nil : ¬ SetLeavesOpen [] := by
  rintro (⟨u, heq, -⟩ | _)
  cases heq

/-- Where a class is left open there is more than a dash. -/
theorem SetLeavesOpen.ne_dash {s : Text} (h : SetLeavesOpen s) : s ≠ [] ∧ s ≠ ['-'] := by
  constructor
  · rintro rfl
    exact not_setLeavesOpen_nil h
  · rintro rfl
    cases h with
    | here h =>
      obtain ⟨u, heq, -⟩ := h
      cases heq
    | later hc hmember hs =>
      have hdash : readMember '-' [] = .ok (.single '-', []) := rfl
      rw [hdash] at hmember
      cases hmember
      exact not_setLeavesOpen_nil hs

theorem readMembers_of_error {opening : Text} {isFirst : Bool} {c : Char} {r : Text} {e : Stuck}
    (hc : c ≠ ']') (h : readMember c r = .error e) :
    readMembers opening isFirst (c :: r) = .error e := by
  rw [readMembers, if_neg hc]
  split
  · next h' => rw [h] at h'; cases h'; rfl
  · next h' => rw [h] at h'; cases h'

theorem readMembers_of_ok {opening : Text} {isFirst : Bool} {c : Char} {r s : Text} {m : Member}
    (hc : c ≠ ']') (h : readMember c r = .ok (m, s)) :
    readMembers opening isFirst (c :: r) =
      (readMembers opening false s).map fun (ms, u) => (m :: ms, u) := by
  rw [readMembers, if_neg hc]
  split
  · next h' => rw [h] at h'; cases h'
  · next h' =>
    rw [h] at h'
    cases h'
    cases readMembers opening false s <;> rfl

/-- **The members of a set read the same when the text goes on with a slash**, unless a class is left
open and ended there. -/
theorem readMembers_append {opening : Text} {isFirst : Bool} {t s : Text} {ms : List Member}
    (h : readMembers opening isFirst t = .ok (ms, s))
    (hclosed : SetLeavesOpen t → ¬ classEnd <:+: q) (opening' : Text) :
    readMembers opening' isFirst (t ++ '/' :: q) = .ok (ms, s ++ '/' :: q) := by
  fun_induction readMembers opening isFirst t generalizing ms s with
  | case1 => cases h
  | case2 => cases h
  | case3 b r hb =>
    cases h
    rw [List.cons_append, readMembers, if_pos rfl, if_neg hb]
  | case4 => cases h
  | case5 => cases h
  | case6 b c r hc m u hmember ms' v hrest ih =>
    cases h
    obtain ⟨hne, hdash⟩ := ne_dash_of_readMembers hrest
    have hread := readMember_append hmember hne hdash fun hopen => hclosed (.here hopen)
    have hnext := ih hrest fun hs => hclosed (.later hc hmember hs)
    rw [List.cons_append, readMembers_of_ok hc hread, hnext]
    rfl

/-- **A set that leaves a class open does not read when a `:]` follows behind a slash.** -/
theorem SetLeavesOpen.refused {t : Text} (h : SetLeavesOpen t) (hq : classEnd <:+: q)
    (opening : Text) (isFirst : Bool) :
    ∃ e, readMembers opening isFirst (t ++ '/' :: q) = .error e := by
  induction h generalizing isFirst with
  | @here t hopen =>
    obtain ⟨u, rfl, -⟩ := id hopen
    obtain ⟨e, he⟩ := readMember_refused hopen hq
    exact ⟨e, readMembers_of_error (by decide) he⟩
  | @later c r s m hc hmember hs ih =>
    by_cases hhere : OpensClass (c :: r)
    · obtain ⟨e, he⟩ := readMember_refused hhere hq
      exact ⟨e, readMembers_of_error hc he⟩
    · obtain ⟨hne, hdash⟩ := hs.ne_dash
      obtain ⟨e, he⟩ := ih false
      have hread := readMember_append (q := q) hmember hne hdash fun hopen => absurd hopen hhere
      rw [List.cons_append, readMembers_of_ok hc hread, he]
      exact ⟨e, rfl⟩

theorem readSet_eq (r : Text) :
    readSet r = (readMembers ('[' :: r) true (afterNegation r)).map fun (ms, s) =>
      (⟨r.head? = some '^' ∨ r.head? = some '!', ms⟩, s) := by
  unfold readSet afterNegation
  dsimp only
  split
  · next h => rw [h]; rfl
  · next h => rw [h]; rfl

theorem afterNegation_append {r : Text} (hr : r ≠ []) (x : Text) :
    afterNegation (r ++ x) = afterNegation r ++ x := by
  obtain ⟨c, r, rfl⟩ := List.exists_cons_of_ne_nil hr
  have hhead : (c :: r ++ x).head? = (c :: r).head? := rfl
  unfold afterNegation
  rw [hhead]
  split <;> rfl

theorem readSet_append {r s : Text} {set : CharSet} (h : readSet r = .ok (set, s))
    (hclosed : SetLeavesOpen (afterNegation r) → ¬ classEnd <:+: q) :
    readSet (r ++ '/' :: q) = .ok (set, s ++ '/' :: q) := by
  have hr : r ≠ [] := by
    rintro rfl
    exact Nat.not_lt_zero _ (length_lt_of_readSet h)
  have hhead : (r ++ '/' :: q).head? = r.head? := by
    obtain ⟨c, r, rfl⟩ := List.exists_cons_of_ne_nil hr
    rfl
  rw [readSet_eq] at h
  rw [readSet_eq, afterNegation_append hr, hhead]
  cases hmembers : readMembers ('[' :: r) true (afterNegation r) with
  | error e =>
    rw [hmembers] at h
    cases h
  | ok found =>
    rw [hmembers] at h
    cases h
    rw [readMembers_append hmembers hclosed]
    rfl

theorem readSet_refused {r : Text} (h : SetLeavesOpen (afterNegation r)) (hq : classEnd <:+: q) :
    ∃ e, readSet (r ++ '/' :: q) = .error e := by
  have hr : r ≠ [] := by
    rintro rfl
    exact not_setLeavesOpen_nil h
  obtain ⟨e, he⟩ := h.refused hq ('[' :: (r ++ '/' :: q)) true
  rw [readSet_eq, afterNegation_append hr, he]
  exact ⟨e, rfl⟩

/-! ## Segments -/

/-- The source of a set ends where the set does. -/
theorem take_source_append {c : Char} {r s : Text} (h : s.length < r.length) (x : Text) :
    (c :: (r ++ x)).take ((r ++ x).length + 1 - (s ++ x).length) =
      (c :: r).take (r.length + 1 - s.length) := by
  have hlen : (r ++ x).length + 1 - (s ++ x).length = r.length + 1 - s.length := by
    simp only [List.length_append]
    omega
  rw [hlen, ← List.cons_append, List.take_append_of_le_length]
  simp only [List.length_cons]
  omega

theorem readAtom_append {c : Char} {r s : Text} {t : Token} (h : readAtom c r = .ok (t, s))
    (hclosed : c = '[' → SetLeavesOpen (afterNegation r) → ¬ classEnd <:+: q) :
    readAtom c (r ++ '/' :: q) = .ok (t, s ++ '/' :: q) := by
  unfold readAtom at h ⊢
  split at h
  · next hc =>
    cases h
    rw [if_pos hc]
  · next hc =>
    rw [if_neg hc]
    split at h
    · next hc =>
      cases h
      rw [if_pos hc]
    · next hc =>
      rw [if_neg hc]
      split at h
      · next hc =>
        rw [if_pos hc]
        cases hset : readSet r with
        | error e =>
          rw [hset] at h
          cases h
        | ok found =>
          obtain ⟨set, u⟩ := found
          rw [hset] at h
          cases h
          rw [readSet_append hset (hclosed hc)]
          dsimp only
          rw [take_source_append (length_lt_of_readSet hset)]
      · next hc =>
        rw [if_neg hc]
        cases hplain : readPlain c r with
        | error e =>
          rw [hplain] at h
          cases h
        | ok found =>
          rw [hplain] at h
          cases h
          rw [readPlain_append hplain]

theorem readAtom_refused {r : Text} (h : SetLeavesOpen (afterNegation r)) (hq : classEnd <:+: q) :
    ∃ e, readAtom '[' (r ++ '/' :: q) = .error e := by
  obtain ⟨e, he⟩ := readSet_refused h hq
  unfold readAtom
  rw [if_neg (by decide), if_neg (by decide), if_pos rfl, he]
  exact ⟨e, rfl⟩

theorem not_leavesOpen_nil : ¬ LeavesOpen [] := nofun

/-- Away from a bracket, what is left open is left open later. -/
theorem leavesOpen_cons_iff {c : Char} {r s : Text} {t : Token} (hc : c ≠ '[')
    (h : readAtom c r = .ok (t, s)) : LeavesOpen (c :: r) ↔ LeavesOpen s := by
  constructor
  · intro hopen
    cases hopen with
    | set => exact absurd rfl hc
    | later hatom hs =>
      rw [h] at hatom
      cases hatom
      exact hs
  · exact .later h

theorem leavesOpen_slash_iff {t : Text} : LeavesOpen ('/' :: t) ↔ LeavesOpen t :=
  leavesOpen_cons_iff (t := .literal ['/']) (by decide) rfl

theorem leavesOpen_star_iff {t : Text} : LeavesOpen ('*' :: t) ↔ LeavesOpen t :=
  leavesOpen_cons_iff (t := .star) (by decide) rfl

theorem readSegment_of_error {c : Char} {r : Text} {e : Stuck} (hc : c ≠ '/')
    (h : readAtom c r = .error e) : readSegment (c :: r) = .error e := by
  rw [readSegment, if_neg hc]
  split
  · next h' => rw [h] at h'; cases h'; rfl
  · next h' => rw [h] at h'; cases h'

theorem readSegment_of_ok {c : Char} {r s : Text} {t : Token} (hc : c ≠ '/')
    (h : readAtom c r = .ok (t, s)) :
    readSegment (c :: r) = (readSegment s).map fun (ts, u) => (t.prepend ts, u) := by
  rw [readSegment, if_neg hc]
  split
  · next h' => rw [h] at h'; cases h'
  · next h' =>
    rw [h] at h'
    cases h'
    cases readSegment s <;> rfl

/-- **A segment reads the same when the text goes on with a slash**, unless a class is left open and
ended there. -/
theorem readSegment_append {t s : Text} {ts : List Token} (h : readSegment t = .ok (ts, s))
    (hclosed : LeavesOpen t → ¬ classEnd <:+: q) :
    readSegment (t ++ '/' :: q) = .ok (ts, s ++ '/' :: q) := by
  fun_induction readSegment t generalizing ts s with
  | case1 =>
    cases h
    rw [List.nil_append, readSegment, if_pos rfl]
  | case2 r =>
    cases h
    rw [List.cons_append, readSegment, if_pos rfl]
  | case3 => cases h
  | case4 => cases h
  | case5 c r hc a u hatom bs v hrest ih =>
    cases h
    have hread := readAtom_append (q := q) hatom fun hset hopen => hclosed (by
      subst hset
      exact .set hopen)
    have hnext := ih hrest fun hs => hclosed (.later hatom hs)
    rw [List.cons_append, readSegment_of_ok hc hread, hnext]
    rfl

/-- **A class that is left open and ended behind the slash is an error**, in this segment or later. -/
theorem readSegment_refused {t s : Text} {ts : List Token} (h : readSegment t = .ok (ts, s))
    (hopen : LeavesOpen t) (hq : classEnd <:+: q) :
    (∃ e, readSegment (t ++ '/' :: q) = .error e) ∨
      LeavesOpen s ∧ readSegment (t ++ '/' :: q) = .ok (ts, s ++ '/' :: q) := by
  fun_induction readSegment t generalizing ts s with
  | case1 => cases hopen
  | case2 r =>
    cases h
    refine .inr ⟨hopen, ?_⟩
    rw [List.cons_append, readSegment, if_pos rfl]
  | case3 => cases h
  | case4 => cases h
  | case5 c r hc a u hatom bs v hrest ih =>
    cases h
    by_cases hset : c = '[' ∧ SetLeavesOpen (afterNegation r)
    · obtain ⟨rfl, hset⟩ := hset
      obtain ⟨e, he⟩ := readAtom_refused hset hq
      exact .inl ⟨e, readSegment_of_error hc he⟩
    · have hread := readAtom_append (q := q) hatom fun hc hs => absurd ⟨hc, hs⟩ hset
      have hlater : LeavesOpen u := by
        cases hopen with
        | set hs => exact absurd ⟨rfl, hs⟩ hset
        | later hatom' hs =>
          rw [hatom] at hatom'
          cases hatom'
          exact hs
      rw [List.cons_append, readSegment_of_ok hc hread]
      rcases ih hrest hlater with ⟨e, he⟩ | ⟨hopen, hok⟩
      · rw [he]
        exact .inl ⟨e, rfl⟩
      · rw [hok]
        exact .inr ⟨hopen, rfl⟩

end PathIgnore.Glob
