import PathIgnore.Glob.Fault
import PathIgnore.Glob.Token

/-!
# Reading a pattern

Each reader takes a text and returns what it read with the rest, or the place where it got stuck.
A reader looks at the text in front of it and at nothing before, so it needs no offset.

* `readMember`, `readSet` read the inside of a bracket set.
* `readAtom` reads one operator or one plain character.
* `readSegment` reads up to a slash or the end.
* `readSegments` reads a whole pattern after its leading slash: segments, the separators between
  them, and the double stars that stand alone in a segment.
* `tokenize` is the reader with the offset of the fault filled in.

Every step leaves a shorter rest, and that is why the readers end.
-/

namespace PathIgnore.Glob

/-! ## Characters -/

/-- Reads the plain character that starts with `c`: a backslash stands for the character after it. -/
def readPlain (c : Char) (r : Text) : Except Stuck (Char × Text) :=
  if c = '\\' then
    match r with
    | [] => .error ⟨.danglingEscape, [c]⟩
    | d :: s => .ok (d, s)
  else .ok (c, r)

theorem length_le_of_readPlain {c d : Char} {r s : Text} (h : readPlain c r = .ok (d, s)) :
    s.length ≤ r.length := by
  unfold readPlain at h
  split at h
  · split at h
    · cases h
    · cases h; simp
  · cases h; exact Nat.le_refl _

/-! ## Bracket sets -/

/-- Cuts the text at the first `:]`. -/
def cutAtClassEnd : Text → Option (Text × Text)
  | [] => none
  | c :: r =>
    if c = ':' ∧ r.head? = some ']' then some ([], r.tail)
    else (cutAtClassEnd r).map fun (name, s) => (c :: name, s)

theorem length_lt_of_cutAtClassEnd {t name s : Text} (h : cutAtClassEnd t = some (name, s)) :
    s.length < t.length := by
  induction t generalizing name s with
  | nil => cases h
  | cons c r ih =>
    unfold cutAtClassEnd at h
    split at h
    · cases h
      simp only [List.length_tail, List.length_cons]
      omega
    · obtain ⟨⟨n, u⟩, hcut, heq⟩ := Option.map_eq_some_iff.mp h
      cases heq
      have := ih hcut
      simp
      omega

/-- The class name that starts here, if `[:` does and a `:]` follows anywhere. -/
def className? (c : Char) (r : Text) : Option (Text × Text) :=
  if c = '[' ∧ r.head? = some ':' then cutAtClassEnd r.tail else none

theorem length_lt_of_className? {c : Char} {r name s : Text}
    (h : className? c r = some (name, s)) : s.length < r.length := by
  unfold className? at h
  split at h
  · have := length_lt_of_cutAtClassEnd h
    simp at this
    omega
  · cases h

/-- Reads the set member that starts with `c`: a named class, a range or a single character. A dash
before the closing bracket makes no range. -/
def readMember (c : Char) (r : Text) : Except Stuck (Member × Text) :=
  match className? c r with
  | some (name, s) =>
    match CharClass.ofName? name with
    | some k => .ok (.posix k, s)
    | none => .error ⟨.unknownClass name, c :: r⟩
  | none =>
    match readPlain c r with
    | .error e => .error e
    | .ok (lo, s) =>
      match s with
      | '-' :: h :: u =>
        if h = ']' then .ok (.single lo, s)
        else
          match readPlain h u with
          | .error e => .error e
          | .ok (hi, v) => .ok (.range lo hi, v)
      | _ => .ok (.single lo, s)

theorem length_le_of_readMember {c : Char} {r s : Text} {m : Member}
    (h : readMember c r = .ok (m, s)) : s.length ≤ r.length := by
  unfold readMember at h
  split at h
  · next hname =>
    have := length_lt_of_className? hname
    split at h <;> cases h
    omega
  · split at h
    · cases h
    · next hplain =>
      have hle := length_le_of_readPlain hplain
      split at h
      · split at h
        · cases h; exact hle
        · split at h
          · cases h
          · next hhi =>
            have := length_le_of_readPlain hhi
            cases h
            simp at hle
            omega
      · cases h; exact hle

/-- Reads members up to the closing bracket. `opening` is the text from the opening bracket on, where
a set without an end or without members is reported. -/
def readMembers (opening : Text) (isFirst : Bool) : Text → Except Stuck (List Member × Text)
  | [] => .error ⟨.unclosedSet, opening⟩
  | c :: r =>
    if c = ']' then
      if isFirst then .error ⟨.emptySet, opening⟩ else .ok ([], r)
    else
      match _h : readMember c r with
      | .error e => .error e
      | .ok (m, s) =>
        match readMembers opening false s with
        | .error e => .error e
        | .ok (ms, u) => .ok (m :: ms, u)
termination_by t => t.length
decreasing_by
  have := length_le_of_readMember _h
  simp
  omega

theorem length_lt_of_readMembers {opening : Text} {isFirst : Bool} {t s : Text} {ms : List Member}
    (h : readMembers opening isFirst t = .ok (ms, s)) : s.length < t.length := by
  fun_induction readMembers opening isFirst t generalizing ms s with
  | case1 => cases h
  | case2 => cases h
  | case3 => cases h; simp
  | case4 => cases h
  | case5 => cases h
  | case6 b c r _ m u hmember ms' v hrest ih =>
    cases h
    have hmember_le := length_le_of_readMember hmember
    have hrest_lt := ih hrest
    simp
    omega

/-- Reads the set whose opening bracket has just been taken; `^` or `!` right after it negates. -/
def readSet (r : Text) : Except Stuck (CharSet × Text) :=
  let negated := r.head? = some '^' ∨ r.head? = some '!'
  match readMembers ('[' :: r) true (if negated then r.tail else r) with
  | .error e => .error e
  | .ok (ms, s) => .ok (⟨negated, ms⟩, s)

theorem length_lt_of_readSet {r s : Text} {set : CharSet} (h : readSet r = .ok (set, s)) :
    s.length < r.length := by
  unfold readSet at h
  dsimp only at h
  split at h
  · cases h
  · next hmembers =>
    have := length_lt_of_readMembers hmembers
    cases h
    split at this
    · simp at this; omega
    · exact this

/-! ## Segments -/

/-- Reads the operator or the plain character that starts with `c`. -/
def readAtom (c : Char) (r : Text) : Except Stuck (Token × Text) :=
  if c = '*' then .ok (.star, r)
  else if c = '?' then .ok (.anyChar, r)
  else if c = '[' then
    match readSet r with
    | .error e => .error e
    | .ok (set, s) => .ok (.bracket ((c :: r).take (r.length + 1 - s.length)) set, s)
  else
    match readPlain c r with
    | .error e => .error e
    | .ok (d, s) => .ok (.literal [d], s)

theorem length_le_of_readAtom {c : Char} {r s : Text} {t : Token}
    (h : readAtom c r = .ok (t, s)) : s.length ≤ r.length := by
  unfold readAtom at h
  split at h
  · cases h; exact Nat.le_refl _
  · split at h
    · cases h; exact Nat.le_refl _
    · split at h
      · split at h
        · cases h
        · next hset => cases h; exact Nat.le_of_lt (length_lt_of_readSet hset)
      · split at h
        · cases h
        · next hplain => cases h; exact length_le_of_readPlain hplain

/-- Reads atoms up to a slash or the end. -/
def readSegment : Text → Except Stuck (List Token × Text)
  | [] => .ok ([], [])
  | c :: r =>
    if c = '/' then .ok ([], c :: r)
    else
      match _h : readAtom c r with
      | .error e => .error e
      | .ok (t, s) =>
        match readSegment s with
        | .error e => .error e
        | .ok (ts, u) => .ok (t.prepend ts, u)
termination_by t => t.length
decreasing_by
  have := length_le_of_readAtom _h
  simp
  omega

theorem length_le_of_readSegment {t s : Text} {ts : List Token}
    (h : readSegment t = .ok (ts, s)) : s.length ≤ t.length := by
  fun_induction readSegment t generalizing ts s with
  | case1 => cases h; exact Nat.le_refl _
  | case2 => cases h; exact Nat.le_refl _
  | case3 => cases h
  | case4 => cases h
  | case5 c r _ a u hatom bs v hrest ih =>
    cases h
    have hatom_le := length_le_of_readAtom hatom
    have hrest_le := ih hrest
    simp
    omega

/-- A segment ends at a slash or at the end. -/
theorem head?_of_readSegment {t s : Text} {ts : List Token} (h : readSegment t = .ok (ts, s)) :
    s = [] ∨ s.head? = some '/' := by
  fun_induction readSegment t generalizing ts s with
  | case1 => cases h; exact .inl rfl
  | case2 => cases h; exact .inr rfl
  | case3 => cases h
  | case4 => cases h
  | case5 c r _ a u hatom bs v hrest ih => cases h; exact ih hrest

/-- What follows a double star that stands alone in its segment. -/
def afterGlobstar? : Text → Option Text
  | a :: b :: r =>
    if a = '*' ∧ b = '*' ∧ (r = [] ∨ r.head? = some '/') then some r else none
  | _ => none

theorem length_of_afterGlobstar? {t r : Text} (h : afterGlobstar? t = some r) :
    t.length = r.length + 2 := by
  unfold afterGlobstar? at h
  grind

/-- Reads segments and the separators between them. The pattern may end in one separator, but no
segment is empty. -/
def readSegments (t : Text) : Except Stuck (List Token) :=
  match _h : afterGlobstar? t with
  | some [] => .ok [.globstar]
  | some [_] => .ok [.globstar, .separator]
  | some (_ :: c :: r) =>
    match readSegments (c :: r) with
    | .error e => .error e
    | .ok ts => .ok (.globstarSlash :: ts)
  | none =>
    match _h' : readSegment t with
    | .error e => .error e
    | .ok ([], _) => .error ⟨.emptySegment, t⟩
    | .ok (ts, []) => .ok ts
    | .ok (ts, [_]) => .ok (ts ++ [.separator])
    | .ok (ts, _ :: c :: r) =>
      match readSegments (c :: r) with
      | .error e => .error e
      | .ok us => .ok (ts ++ .separator :: us)
termination_by t.length
decreasing_by
  · have := length_of_afterGlobstar? _h
    simp at this ⊢
    omega
  · have := length_le_of_readSegment _h'
    simp at this ⊢
    omega

/-! ## Patterns -/

/-- Reads a whole pattern; a slash in front is a token of its own. -/
def readPattern : Text → Except Stuck (List Token)
  | [] => .error ⟨.emptyPattern, []⟩
  | c :: r =>
    if c = '/' then
      match readSegments r with
      | .error e => .error e
      | .ok ts => .ok (.separator :: ts)
    else readSegments (c :: r)

/-- The tokens of a pattern, or the fault with its offset. -/
def tokenize (pattern : Text) : Except PatternError (List Token) :=
  (readPattern pattern).mapError (PatternError.ofStuck pattern)

example : (tokenize "a/**/[!b-d]*.c".toList).toOption = some
    [.literal ['a'], .separator, .globstarSlash,
      .bracket "[!b-d]".toList ⟨true, [.range 'b' 'd']⟩, .star, .literal ['.', 'c']] := by
  decide +kernel

end PathIgnore.Glob
