import PathIgnore.Proofs.Glob.Search

/-!
# The turns of the search

Each turn of the search (`Turn.on`) takes the position on top of the stack. One that has been explored
before is dropped; any other one is explored, and the positions that it leads to are pushed. `record` is
the search with a record of its turns (`snd_record`).

The stack grows by as many positions as the candidate has characters, so it is no measure of what is left
to do. But no position is explored twice (`nodup_explored`), all of them are ends of the chain with ends
of the candidate (`within_of_mem_pushed`), and so the turns are numbered (`search_turns`). Each of these
is a fact about one turn first, and then one about all turns by induction on the fuel.
-/

namespace PathIgnore.Glob

variable {fuel : Nat} {stack : List Position} {seen : Seen}

/-! ## One turn -/

namespace Turn

/-- The position that the turn explores. -/
def explored? : Turn → Option Position
  | again _ => none
  | first p => some p

theorem not_contains_of_explored {p q : Position} (h : (on seen p).explored? = some q) :
    ¬ seen.contains q.key = true := by
  unfold on at h
  split at h
  · cases h
  · next hseen =>
    cases h
    exact hseen

/-- What has been explored stays so. -/
theorem contains_mark {turn : Turn} {k : Nat × Nat} (h : seen.contains k = true) :
    (turn.mark seen).contains k = true := by
  cases turn with
  | again p => exact h
  | first p => exact (contains_insert _ _ _).mpr (.inr h)

theorem contains_mark_of_explored {turn : Turn} {q : Position} (h : turn.explored? = some q) :
    (turn.mark seen).contains q.key = true := by
  cases turn with
  | again p => cases h
  | first p =>
    cases h
    exact (contains_insert _ _ _).mpr (.inl rfl)

theorem within_of_mem_pushed {start p q : Position} (hp : start.Within p)
    (h : q ∈ (on seen p).pushed) : start.Within q := by
  unfold on at h
  split at h
  · cases h
  · exact hp.next h

end Turn

/-! ## A record of the turns -/

/-- The search with a record of its turns. -/
def record : Nat → List Position → Seen → List Turn × Option Bool
  | _, [], _ => ([], some false)
  | 0, _ :: _, _ => ([], none)
  | fuel + 1, p :: stack, seen =>
    let turn := Turn.on seen p
    if turn.isEnd then ([turn], some true)
    else
      let (turns, answer) := record fuel (turn.pushed ++ stack) (turn.mark seen)
      (turn :: turns, answer)

@[simp] theorem record_nil (fuel : Nat) (seen : Seen) : record fuel [] seen = ([], some false) := by
  cases fuel <;> rfl

/-- **Without the record it is the search.** -/
theorem snd_record (fuel : Nat) (stack : List Position) (seen : Seen) :
    (record fuel stack seen).2 = run fuel stack seen := by
  induction fuel generalizing stack seen with
  | zero => cases stack <;> rfl
  | succ fuel ih =>
    cases stack with
    | nil => rfl
    | cons p stack =>
      rw [record, run]
      split
      · rfl
      · exact ih _ _

/-- There is a turn for each unit of fuel at most. -/
theorem length_record_le (fuel : Nat) (stack : List Position) (seen : Seen) :
    (record fuel stack seen).1.length ≤ fuel := by
  induction fuel generalizing stack seen with
  | zero => cases stack <;> exact Nat.le_refl _
  | succ fuel ih =>
    cases stack with
    | nil => exact Nat.zero_le _
    | cons p stack =>
      rw [record]
      split
      · exact Nat.succ_le_succ (Nat.zero_le _)
      · exact Nat.succ_le_succ (ih _ _)

/-- **Once there is an answer, more fuel makes no more turns.** -/
theorem record_add (extra : Nat) (h : (run fuel stack seen).isSome = true) :
    record (fuel + extra) stack seen = record fuel stack seen := by
  induction fuel generalizing stack seen with
  | zero =>
    cases stack with
    | nil => rw [record_nil, record_nil]
    | cons p stack => cases h
  | succ fuel ih =>
    cases stack with
    | nil => rw [record_nil, record_nil]
    | cons p stack =>
      rw [run] at h
      rw [Nat.succ_add, record, record]
      split
      · rfl
      · next hend =>
        rw [if_neg hend] at h
        rw [ih h]

/-! ## What is explored and pushed -/

/-- Nothing is explored that has been explored before. -/
theorem not_contains_of_mem_explored {q : Position}
    (h : q ∈ (record fuel stack seen).1.filterMap Turn.explored?) : ¬ seen.contains q.key = true := by
  induction fuel generalizing stack seen with
  | zero => cases stack <;> cases h
  | succ fuel ih =>
    cases stack with
    | nil => cases h
    | cons p stack =>
      obtain ⟨turn, hturn, hq⟩ := List.mem_filterMap.mp h
      rw [record] at hturn
      split at hturn
      · rw [List.mem_singleton.mp hturn] at hq
        exact Turn.not_contains_of_explored hq
      · rcases List.mem_cons.mp hturn with rfl | hturn
        · exact Turn.not_contains_of_explored hq
        · exact fun hseen =>
            ih (List.mem_filterMap.mpr ⟨turn, hturn, hq⟩) (Turn.contains_mark hseen)

/-- **No position is explored twice**, and no two with the same key. -/
theorem nodup_explored (fuel : Nat) (stack : List Position) (seen : Seen) :
    (((record fuel stack seen).1.filterMap Turn.explored?).map Position.key).Nodup := by
  induction fuel generalizing stack seen with
  | zero => cases stack <;> exact .nil
  | succ fuel ih =>
    cases stack with
    | nil => exact .nil
    | cons p stack =>
      rw [record]
      split
      · rw [List.filterMap_cons]
        split
        · exact .nil
        · exact List.nodup_singleton _
      · rw [List.filterMap_cons]
        split
        · exact ih _ _
        · next q hq =>
          refine List.nodup_cons.mpr ⟨fun hmem => ?_, ih _ _⟩
          obtain ⟨r, hr, hkey⟩ := List.mem_map.mp hmem
          exact not_contains_of_mem_explored hr (hkey ▸ Turn.contains_mark_of_explored hq)

/-- **Whatever is pushed consists of ends of what the search started with.** -/
theorem within_of_mem_pushed {start q : Position} (hstack : ∀ p ∈ stack, start.Within p)
    (hq : q ∈ (record fuel stack seen).1.flatMap Turn.pushed) : start.Within q := by
  induction fuel generalizing stack seen with
  | zero => cases stack <;> cases hq
  | succ fuel ih =>
    cases stack with
    | nil => cases hq
    | cons p stack =>
      have hpushed : ∀ r ∈ (Turn.on seen p).pushed, start.Within r := fun r =>
        Turn.within_of_mem_pushed (hstack p List.mem_cons_self)
      have hnext : ∀ r ∈ (Turn.on seen p).pushed ++ stack, start.Within r := fun r hr =>
        (List.mem_append.mp hr).elim (hpushed r) fun hr => hstack r (List.mem_cons_of_mem _ hr)
      rw [record] at hq
      split at hq
      · rw [List.flatMap_singleton] at hq
        exact hpushed q hq
      · rw [List.flatMap_cons, List.mem_append] at hq
        exact hq.elim (hpushed q) (ih hnext)

/-- Ends of chain and candidate are told by how much is left out. -/
theorem Position.Within.exists_drop {ns : List Node} {s : Text} {p : Position}
    (h : Position.Within (ns, s) p) :
    ∃ i ≤ ns.length, ∃ k ≤ s.length, p = (ns.drop i, s.drop k) :=
  ⟨_, Nat.sub_le _ _, _, Nat.sub_le _ _,
    Prod.ext (List.suffix_iff_eq_drop.mp h.1) (List.suffix_iff_eq_drop.mp h.2)⟩

/-! ## How many turns -/

theorem stepBound_eq (nodes chars : Nat) : stepBound nodes chars = 1 + nodes * (chars + 1) ^ 2 := by
  rw [stepBound, Nat.pow_two]

/-- **The search makes no more turns than its bound**, with any fuel. -/
theorem length_record_le_stepBound (fuel : Nat) (ns : List Node) (s : Text) :
    (record fuel [(ns, s)] ∅).1.length ≤ stepBound ns.length s.length := by
  rcases Nat.le_total fuel (stepBound ns.length s.length) with hle | hle
  · exact Nat.le_trans (length_record_le _ _ _) hle
  · obtain ⟨extra, rfl⟩ := Nat.exists_eq_add_of_le hle
    rw [record_add extra (run_stepBound_isSome ns s)]
    exact length_record_le _ _ _

theorem run_add {answer : Bool} (extra : Nat) (h : run fuel stack seen = some answer) :
    run (fuel + extra) stack seen = some answer := by
  rw [← snd_record, record_add extra (Option.isSome_of_eq_some h), snd_record, h]

/--
**The search of a candidate ends without exploring any position twice.** Whatever the fuel: it pushes
ends of the chain with ends of the candidate, it explores each of them once, and with `m` nodes and `n`
characters it makes `1 + m * (n + 1) ^ 2` turns at most. With so much fuel it answers as the glob does,
and once there is an answer it stays with more fuel.
-/
theorem search_turns (g : Glob) (s : Text) (fuel : Nat) :
    let nodes := chain g.tokens
    let bound := 1 + nodes.length * (s.length + 1) ^ 2
    let turns := (record fuel [(nodes, s)] ∅).1
    (record fuel [(nodes, s)] ∅).2 = run fuel [(nodes, s)] ∅ ∧
    (∀ p ∈ (nodes, s) :: turns.flatMap Turn.pushed,
      ∃ i ≤ nodes.length, ∃ k ≤ s.length, p = (nodes.drop i, s.drop k)) ∧
    ((turns.filterMap Turn.explored?).map Position.key).Nodup ∧
    turns.length ≤ fuel ∧ turns.length ≤ bound ∧
    (∀ extra, run (bound + extra) [(nodes, s)] ∅ = some (g.accepts s)) ∧
    ∀ extra answer, run fuel [(nodes, s)] ∅ = some answer →
      run (fuel + extra) [(nodes, s)] ∅ = some answer := by
  intro nodes bound turns
  have hbound : stepBound nodes.length s.length = bound := stepBound_eq _ _
  refine ⟨snd_record _ _ _, ?_, nodup_explored _ _ _, length_record_le _ _ _,
    hbound ▸ length_record_le_stepBound _ _ _, ?_, fun extra answer => run_add extra⟩
  · intro p hp
    apply Position.Within.exists_drop
    rcases List.mem_cons.mp hp with rfl | hp
    · exact Position.Within.refl _
    · exact within_of_mem_pushed (Position.Within.singleton _) hp
  · intro extra
    refine run_add extra ?_
    obtain ⟨answer, hanswer⟩ := Option.isSome_iff_exists.mp (run_stepBound_isSome nodes s)
    rw [← hbound, hanswer, accepts, passes, hanswer]
    rfl

end PathIgnore.Glob
