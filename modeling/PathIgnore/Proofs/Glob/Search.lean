import Mathlib.Data.Finset.Prod
import Mathlib.Order.Interval.Finset.Nat
import Mathlib.Tactic.Ring
import PathIgnore.Proofs.Glob.Language

/-!
# The search finds what the pattern means

The search of a candidate walks a graph of positions: what is left of the chain, with what is left of
the candidate. It ends, and it says yes exactly if the candidate is in the language of the chain.

The proof has three parts.

1. A yes is right: whatever the search pushes can only pass if the position it came from can
   (`exists_passes_of_run`).
2. A no is right: what has been seen is closed under one step, up to the positions that are still on
   the stack (`Explored`). When the stack is empty nothing that was seen can pass.
3. There is an answer: every position that is expanded uses up one key of finitely many, and pushes at
   most one position more than the candidate has characters (`run_isSome`).
-/

namespace PathIgnore.Glob

/-! ## Positions -/

namespace Position

/-- The end of the chain and of the candidate. -/
def final : Position := ([], [])

/-- The rest of the chain takes the rest of the candidate. -/
def Passes (p : Position) : Prop := p.2 ∈ chainLanguage p.1

/-- Both parts are ends of the parts of `start`. -/
def Within (start p : Position) : Prop := p.1 <:+ start.1 ∧ p.2 <:+ start.2

theorem passes_iff {p : Position} : p.Passes ↔ p = final ∨ ∃ q ∈ p.next, q.Passes := by
  obtain ⟨ns, s⟩ := p
  cases ns with
  | nil => simp [Passes, next, final]
  | cons n ns =>
    show s ∈ chainLanguage (n :: ns) ↔ _
    rw [mem_chainLanguage_cons_iff]
    simp [Passes, next, final]

theorem Within.refl (start : Position) : Within start start := ⟨List.suffix_rfl, List.suffix_rfl⟩

theorem Within.singleton (start : Position) : ∀ p ∈ [start], Within start p := by
  intro p hp
  rw [List.mem_singleton.mp hp]
  exact Within.refl start

theorem Within.next {start p q : Position} (h : Within start p) (hq : q ∈ p.next) :
    Within start q := by
  obtain ⟨ns, s⟩ := p
  obtain ⟨hns, hs⟩ := h
  cases ns with
  | nil => cases hq
  | cons n ns =>
    obtain ⟨r, hr, rfl⟩ := List.mem_map.mp hq
    exact ⟨(List.suffix_cons n ns).trans hns, (Node.isSuffix_of_mem_stops hr).trans hs⟩

/-- Two ends of one list that are equally long are equal. -/
theorem eq_of_isSuffix {α : Type} {l a b : List α} (ha : a <:+ l) (hb : b <:+ l)
    (hlen : a.length = b.length) : a = b :=
  (List.suffix_of_suffix_length_le ha hb (Nat.le_of_eq hlen)).eq_of_length hlen

/-- **On the way from one start the key determines the position.** -/
theorem eq_of_key_eq {start p q : Position} (hp : Within start p) (hq : Within start q)
    (h : p.key = q.key) : p = q := by
  obtain ⟨hns, hs⟩ := Prod.mk.inj h
  exact Prod.ext (eq_of_isSuffix hp.1 hq.1 hns) (eq_of_isSuffix hp.2 hq.2 hs)

theorem length_next_le {start p : Position} (h : Within start p) :
    p.next.length ≤ start.2.length + 1 := by
  obtain ⟨ns, s⟩ := p
  cases ns with
  | nil => simp [Position.next]
  | cons n ns =>
    have hstops := n.length_stops_le s
    have hs : s.length ≤ start.2.length := h.2.length_le
    rw [Position.next, List.length_map]
    omega

end Position

/-! ## One step -/

theorem contains_insert (seen : Seen) (k l : Nat × Nat) :
    (seen.insert k).contains l = true ↔ k = l ∨ seen.contains l = true := by
  rw [Std.TreeSet.contains_insert, Bool.or_eq_true, beq_iff_eq, Std.LawfulEqCmp.compare_eq_iff_eq]

@[simp] theorem run_nil (fuel : Nat) (seen : Seen) : run fuel [] seen = some false := by
  cases fuel <;> rfl

theorem Turn.on_of_contains {seen : Seen} {p : Position} (h : seen.contains p.key = true) :
    Turn.on seen p = .again p :=
  if_pos h

theorem Turn.on_of_not_contains {seen : Seen} {p : Position} (h : ¬ seen.contains p.key = true) :
    Turn.on seen p = .first p :=
  if_neg h

theorem Turn.isEnd_first_iff {p : Position} : (Turn.first p).isEnd = true ↔ p = Position.final := by
  obtain ⟨_ | ⟨n, ns⟩, _ | ⟨c, s⟩⟩ := p <;> simp [isEnd, Position.final]

/-- What becomes of the position on top of the stack. -/
theorem run_cons (fuel : Nat) (p : Position) (stack : List Position) (seen : Seen) :
    run (fuel + 1) (p :: stack) seen =
      if seen.contains p.key then run fuel stack seen
      else if p = Position.final then some true
      else run fuel (p.next ++ stack) (seen.insert p.key) := by
  rw [run]
  split
  · next hend =>
    by_cases hseen : seen.contains p.key = true
    · rw [Turn.on_of_contains hseen] at hend
      cases hend
    · rw [Turn.on_of_not_contains hseen] at hend
      rw [if_neg hseen, if_pos (Turn.isEnd_first_iff.mp hend)]
  · next hend =>
    by_cases hseen : seen.contains p.key = true
    · rw [if_pos hseen, Turn.on_of_contains hseen]
      rfl
    · rw [Turn.on_of_not_contains hseen] at hend ⊢
      rw [if_neg hseen, if_neg fun hfinal => hend (Turn.isEnd_first_iff.mpr hfinal)]
      rfl

/-! ## A yes is right -/

theorem exists_passes_of_run {fuel : Nat} {stack : List Position} {seen : Seen}
    (h : run fuel stack seen = some true) : ∃ p ∈ stack, p.Passes := by
  induction fuel generalizing stack seen with
  | zero =>
    cases stack with
    | nil => simp at h
    | cons p stack => cases h
  | succ fuel ih =>
    cases stack with
    | nil => simp at h
    | cons p stack =>
      rw [run_cons] at h
      split at h
      · obtain ⟨q, hq, hpass⟩ := ih h
        exact ⟨q, List.mem_cons_of_mem _ hq, hpass⟩
      · split at h
        · next hfinal => exact ⟨p, List.mem_cons_self, Position.passes_iff.mpr (.inl hfinal)⟩
        · obtain ⟨q, hq, hpass⟩ := ih h
          rcases List.mem_append.mp hq with hq | hq
          · exact ⟨p, List.mem_cons_self, Position.passes_iff.mpr (.inr ⟨q, hq, hpass⟩)⟩
          · exact ⟨q, List.mem_cons_of_mem _ hq, hpass⟩

/-! ## A no is right -/

/-- Of what has been seen nothing is final, and every step from there leads to the stack or to what
has been seen. -/
structure Explored (start : Position) (seen : Seen) (stack : List Position) : Prop where
  ne_final : ∀ p : Position, start.Within p → seen.contains p.key = true → p ≠ Position.final
  next : ∀ p : Position, start.Within p → seen.contains p.key = true →
    ∀ q ∈ p.next, q ∈ stack ∨ seen.contains q.key = true

theorem Explored.empty (start : Position) (stack : List Position) : Explored start ∅ stack where
  ne_final := fun p _ h => by simp at h
  next := fun p _ h => by simp at h

/-- A position that has been seen may leave the stack. -/
theorem Explored.pop {start p : Position} {seen : Seen} {stack : List Position}
    (h : Explored start seen (p :: stack)) (hseen : seen.contains p.key = true) :
    Explored start seen stack where
  ne_final := h.ne_final
  next := by
    intro q hq hqseen r hr
    rcases h.next q hq hqseen r hr with hmem | hrseen
    · rcases List.mem_cons.mp hmem with rfl | hmem
      · exact .inr hseen
      · exact .inl hmem
    · exact .inr hrseen

/-- A position counts as seen once the positions that follow it are on the stack. -/
theorem Explored.expand {start p : Position} {seen : Seen} {stack : List Position}
    (h : Explored start seen (p :: stack)) (hp : start.Within p) (hne : p ≠ Position.final) :
    Explored start (seen.insert p.key) (p.next ++ stack) where
  ne_final := by
    intro q hq hqseen
    rcases (contains_insert _ _ _).mp hqseen with hkey | hqseen
    · rw [← Position.eq_of_key_eq hp hq hkey]
      exact hne
    · exact h.ne_final q hq hqseen
  next := by
    intro q hq hqseen r hr
    rw [List.mem_append, contains_insert]
    rcases (contains_insert _ _ _).mp hqseen with hkey | hqseen
    · rw [← Position.eq_of_key_eq hp hq hkey] at hr
      exact .inl (.inl hr)
    · rcases h.next q hq hqseen r hr with hmem | hrseen
      · rcases List.mem_cons.mp hmem with rfl | hmem
        · exact .inr (.inl rfl)
        · exact .inl (.inr hmem)
      · exact .inr (.inr hrseen)

/-- With an empty stack nothing that has been seen can pass. The induction is on the chain. -/
theorem Explored.not_passes {start : Position} {seen : Seen} (h : Explored start seen []) :
    ∀ (ns : List Node) (s : Text), start.Within (ns, s) → seen.contains (Position.key (ns, s)) = true →
      ¬ Position.Passes (ns, s)
  | [], s, hp, hseen => by
    rw [Position.passes_iff]
    rintro (hfinal | ⟨q, hq, _⟩)
    · exact h.ne_final _ hp hseen hfinal
    · cases hq
  | n :: ns, s, hp, hseen => by
    rw [Position.passes_iff]
    rintro (hfinal | ⟨q, hq, hpass⟩)
    · exact h.ne_final _ hp hseen hfinal
    · rcases h.next _ hp hseen q hq with hmem | hqseen
      · cases hmem
      · have hwithin := hp.next hq
        obtain ⟨r, _, rfl⟩ := List.mem_map.mp hq
        exact h.not_passes ns r hwithin hqseen hpass

theorem not_passes_of_run {start : Position} {fuel : Nat} {stack : List Position} {seen : Seen}
    (h : run fuel stack seen = some false) (hexp : Explored start seen stack)
    (hstack : ∀ p ∈ stack, start.Within p) {p : Position} (hp : start.Within p)
    (hmem : p ∈ stack ∨ seen.contains p.key = true) : ¬ p.Passes := by
  induction fuel generalizing stack seen with
  | zero =>
    cases stack with
    | nil => exact hexp.not_passes p.1 p.2 hp (hmem.resolve_left List.not_mem_nil)
    | cons q stack => cases h
  | succ fuel ih =>
    cases stack with
    | nil => exact hexp.not_passes p.1 p.2 hp (hmem.resolve_left List.not_mem_nil)
    | cons q stack =>
      rw [run_cons] at h
      split at h
      · next hseen =>
        refine ih h (hexp.pop hseen) (fun r hr => hstack r (List.mem_cons_of_mem _ hr)) ?_
        rcases hmem with hmem | hmem
        · rcases List.mem_cons.mp hmem with rfl | hmem
          · exact .inr hseen
          · exact .inl hmem
        · exact .inr hmem
      · split at h
        · cases h
        · next hne =>
          -- The position may be the one on top: expanded, it counts as seen.
          have hq := hstack q List.mem_cons_self
          refine ih h (hexp.expand hq hne) ?_ ?_
          · intro r hr
            rcases List.mem_append.mp hr with hr | hr
            · exact hq.next hr
            · exact hstack r (List.mem_cons_of_mem _ hr)
          · rw [List.mem_append, contains_insert]
            rcases hmem with hmem | hmem
            · rcases List.mem_cons.mp hmem with rfl | hmem
              · exact .inr (.inl rfl)
              · exact .inl (.inr hmem)
            · exact .inr (.inr hmem)

/-! ## There is an answer -/

/-- The keys of positions with nodes to pass that have not been seen. -/
def unseen (start : Position) (seen : Seen) : Finset (Nat × Nat) :=
  (Finset.Icc 1 start.1.length ×ˢ Finset.range (start.2.length + 1)).filter
    fun k => seen.contains k = false

theorem card_unseen_empty (start : Position) :
    (unseen start ∅).card = start.1.length * (start.2.length + 1) := by
  rw [unseen, Finset.filter_true_of_mem (by simp), Finset.card_product, Nat.card_Icc,
    Finset.card_range, Nat.add_sub_cancel]

theorem unseen_insert (start : Position) (seen : Seen) (k : Nat × Nat) :
    unseen start (seen.insert k) = (unseen start seen).erase k := by
  ext l
  have hinsert := contains_insert seen k l
  simp only [unseen, Finset.mem_filter, Finset.mem_erase, ← Bool.not_eq_true, hinsert, not_or]
  tauto

/-- Expanding a position pays for what it pushes with its key. -/
theorem length_next_add_unseen_le {start p : Position} {seen : Seen} (hp : start.Within p)
    (hseen : ¬ seen.contains p.key = true) :
    p.next.length + (start.2.length + 1) * (unseen start (seen.insert p.key)).card ≤
      (start.2.length + 1) * (unseen start seen).card := by
  rw [unseen_insert]
  by_cases hnil : p.1 = []
  · -- At the end of the chain nothing is pushed, and the key need not be one of those counted.
    have hnext : p.next = [] := by
      obtain ⟨ns, s⟩ := p
      cases hnil
      rfl
    rw [hnext, List.length_nil, Nat.zero_add]
    exact Nat.mul_le_mul_left _ (Finset.card_le_card (Finset.erase_subset _ _))
  · have hmem : p.key ∈ unseen start seen := by
      have hchain := hp.1.length_le
      have hrest := hp.2.length_le
      have hpos := List.length_pos_iff.mpr hnil
      rw [unseen, Finset.mem_filter, Finset.mem_product, Finset.mem_Icc, Finset.mem_range]
      exact ⟨⟨⟨hpos, hchain⟩, Nat.lt_succ_of_le hrest⟩, Bool.not_eq_true _ ▸ hseen⟩
    have hnext := Position.length_next_le hp
    calc p.next.length + (start.2.length + 1) * ((unseen start seen).erase p.key).card
        ≤ (start.2.length + 1) + (start.2.length + 1) * ((unseen start seen).erase p.key).card :=
          Nat.add_le_add_right hnext _
      _ = (start.2.length + 1) * (((unseen start seen).erase p.key).card + 1) := by
          rw [Nat.mul_succ, Nat.add_comm]
      _ = (start.2.length + 1) * (unseen start seen).card := by
          rw [Finset.card_erase_add_one hmem]

theorem run_isSome {start : Position} {fuel : Nat} {stack : List Position} {seen : Seen}
    (hstack : ∀ p ∈ stack, start.Within p)
    (hfuel : stack.length + (start.2.length + 1) * (unseen start seen).card ≤ fuel) :
    (run fuel stack seen).isSome = true := by
  induction fuel generalizing stack seen with
  | zero =>
    cases stack with
    | nil => simp
    | cons p stack =>
      rw [List.length_cons] at hfuel
      omega
  | succ fuel ih =>
    cases stack with
    | nil => simp
    | cons p stack =>
      have hp := hstack p List.mem_cons_self
      have hrest : ∀ q ∈ stack, start.Within q := fun q hq => hstack q (List.mem_cons_of_mem _ hq)
      rw [List.length_cons] at hfuel
      rw [run_cons]
      split
      · exact ih hrest (by omega)
      · next hseen =>
        split
        · rfl
        · -- The key that is used up is worth all the positions that are pushed.
          have hpaid := length_next_add_unseen_le hp hseen
          refine ih ?_ ?_
          · intro q hq
            rcases List.mem_append.mp hq with hq | hq
            · exact hp.next hq
            · exact hrest q hq
          · rw [List.length_append]
            omega

/-! ## The search as a whole -/

/-- The search for a candidate ends within the bound on its steps. -/
theorem run_stepBound_isSome (ns : List Node) (s : Text) :
    (run (stepBound ns.length s.length) [(ns, s)] ∅).isSome = true := by
  refine run_isSome (Position.Within.singleton (ns, s)) ?_
  rw [card_unseen_empty, stepBound]
  simp only [List.length_singleton]
  apply Nat.le_of_eq
  ring

/-- **The search says yes exactly if the chain takes the candidate.** -/
theorem passes_iff_mem_chainLanguage (ns : List Node) (s : Text) :
    passes ns s = true ↔ s ∈ chainLanguage ns := by
  obtain ⟨answer, hrun⟩ := Option.isSome_iff_exists.mp (run_stepBound_isSome ns s)
  rw [passes, hrun, Option.getD_some]
  cases answer with
  | true =>
    obtain ⟨p, hp, hpass⟩ := exists_passes_of_run hrun
    rw [List.mem_singleton.mp hp] at hpass
    exact iff_of_true rfl hpass
  | false =>
    have hnot := not_passes_of_run hrun (Explored.empty _ _) (Position.Within.singleton _)
      (Position.Within.refl _) (.inl List.mem_cons_self)
    exact iff_of_false Bool.false_ne_true hnot

/-- A glob accepts the language of its tokens. -/
theorem accepts_iff_mem_language (g : Glob) (s : Text) :
    g.accepts s = true ↔ s ∈ language g.tokens := by
  rw [accepts, passes_iff_mem_chainLanguage, chainLanguage_chain]

/--
**A pattern that reads compiles, and its search answers every candidate: yes exactly if the candidate
can be cut into one piece for each token, each in the language of its token.**
-/
theorem accepts_iff_exists_pieces {p : Text} {ts : List Token} (h : tokenize p = .ok ts) (s : Text) :
    ∃ g : Glob, compile p = .ok g ∧ g.tokens = ts ∧
      (run (stepBound (chain ts).length s.length) [(chain ts, s)] ∅).isSome = true ∧
      (g.accepts s = true ↔ ∃ pieces : List Text, pieces.flatten = s ∧
        List.Forall₂ (fun piece t => piece ∈ Token.language t) pieces ts) := by
  refine ⟨⟨p, ts, h⟩, compile_eq_ok_iff.mpr ⟨rfl, h⟩, rfl, run_stepBound_isSome _ _, ?_⟩
  rw [accepts_iff_mem_language, language, mem_prod_iff]
  simp only [List.forall₂_map_right_iff]

/-- A pattern with a globstar, a negated set and a star. -/
theorem accepts_iff_exists_pieces_globstar :
    let p := "a/**/[!b-d]*.c".toList
    let ts : List Token := [.literal ['a'], .separator, .globstarSlash,
      .bracket "[!b-d]".toList ⟨true, [.range 'b' 'd']⟩, .star, .literal ['.', 'c']]
    let s := "a/x/y/e.c".toList
    tokenize p = .ok ts ∧
    ∃ g : Glob, compile p = .ok g ∧ g.tokens = ts ∧
      (run (stepBound (chain ts).length s.length) [(chain ts, s)] ∅).isSome = true ∧
      (g.accepts s = true ↔ ∃ pieces : List Text, pieces.flatten = s ∧
        List.Forall₂ (fun piece t => piece ∈ Token.language t) pieces ts) :=
  ⟨by decide +kernel, accepts_iff_exists_pieces (by decide +kernel) _⟩

end PathIgnore.Glob
