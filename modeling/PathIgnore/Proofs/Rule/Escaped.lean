import PathIgnore.Proofs.Glob.Escaped
import PathIgnore.Proofs.Path.Rebase
import PathIgnore.Proofs.Rule.Spelling

/-!
# Rules for names as they are

Every name can be written as a rule: with a backslash in front of each of its characters it loses every
meaning that they have in a line or in a pattern, blanks at its end included. Three readers take
backslashes off, the one of a trailing blank, the one of a hidden mark and the one of the pattern;
between them each character loses its own (`trimmed_append_escaped`, `takeNegation_of_spells`).

A name gives a rule for all paths that end in it; the names of a path with a slash in front of each give a
rule for that path alone (`exists_rule_of_escaped`).
-/

namespace PathIgnore

open Glob (escaped Spells meaningful)

namespace Line

/-! ## From the line to the pattern -/

theorem endsInEscape_append_escaped {u : Text} (hu : endsInEscape u = false) (w : Text) :
    endsInEscape (u ++ escaped w) = false := by
  induction w using List.reverseRecOn with
  | nil => rwa [Glob.escaped_nil, List.append_nil]
  | append_singleton w c ih =>
    have hpair : u ++ escaped (w ++ [c]) = u ++ escaped w ++ ['\\'] ++ [c] := by
      rw [Glob.escaped_append]
      simp
    rw [hpair, endsInEscape_concat, endsInEscape_concat, ih]
    simp

/-- **A blank at the end loses its backslash to the blanks, and it needs none in the pattern.** -/
theorem trimmed_append_escaped {u w : Text} (hu : endsInEscape u = false) (hw : w ≠ []) :
    ∃ t, trimmed (u ++ escaped w) = u ++ t ∧ Spells t w ∧ t.head? ≠ some '!' := by
  obtain ⟨w, c, rfl⟩ := (List.eq_nil_or_concat w).resolve_left hw
  rw [List.concat_eq_append, Glob.escaped_append]
  cases hblank : isBlank c with
  | false =>
    have hlast : ∀ d ∈ (u ++ (escaped w ++ escaped [c])).getLast?, isBlank d = false := by
      intro d hd
      have hcd : c = d := by simpa [List.getLast?_append] using hd
      rw [← hcd, hblank]
    have htrimmed := trimmed_append (fun _ h => absurd h List.not_mem_nil) hlast
    rw [List.append_nil, if_pos rfl] at htrimmed
    refine ⟨_, htrimmed, ?_, ?_⟩
    · rw [← Glob.escaped_append]
      exact Glob.spells_escaped _
    · cases w <;> simp
  | true =>
    have hcore : ∀ d ∈ (u ++ escaped w ++ ['\\']).getLast?, isBlank d = false := by
      intro d hd
      rw [List.getLast?_concat] at hd
      cases hd
      rfl
    have hescape : endsInEscape (u ++ escaped w ++ ['\\']) = true := by
      rw [endsInEscape_concat, endsInEscape_append_escaped hu]
      rfl
    have hblanks : ∀ d ∈ [c], isBlank d = true := by simpa using hblank
    have htrimmed := trimmed_append hblanks hcore
    rw [if_neg (by simp), if_pos hescape, List.dropLast_concat] at htrimmed
    have hplain : Spells [c] [c] := .plain (Glob.not_meaningful_of_isBlank hblank) .nil
    refine ⟨escaped w ++ [c], ?_, (Glob.spells_escaped w).append hplain, ?_⟩
    · simpa using htrimmed
    · cases w with
      | nil =>
        intro hbang
        cases hbang
        cases hblank
      | cons d w => simp

/-- **A hidden mark loses its backslash to the mark, and it needs none in the pattern.** -/
theorem takeNegation_of_spells {t w : Text} (h : Spells t w) (hbang : t.head? ≠ some '!') :
    ∃ t', takeNegation t = (false, t') ∧ Spells t' w := by
  rcases takeNegation_cases t with ⟨r, rfl, -, -⟩ | ⟨c, r, hc, rfl, ht, -⟩ | ⟨-, ht, -⟩
  · exact absurd rfl hbang
  · refine ⟨c :: r, ht, ?_⟩
    cases h with
    | escape d h =>
      refine .plain ?_ h
      rcases hc with rfl | rfl <;> decide
    | plain hback h => exact absurd (by decide) hback
  · exact ⟨t, ht, h⟩

theorem isSkipped_cons {c : Char} (hblank : isBlank c = false) (hc : c ≠ '#') (r : Text) :
    isSkipped (c :: r) = false := by
  rw [isSkipped, Text.isBlankText, List.all_cons, hblank]
  simpa using hc

theorem endsInSlash_eq_false {t : Text} (h : t.getLast? ≠ some '/') : endsInSlash t = false := by
  rw [endsInSlash, beq_eq_false_iff_ne.mpr h, Bool.false_and]

/-- A spelled name stands for last segments. -/
theorem parse_of_spells {t f : Text} (h : Spells t f) (hf : Path.IsSegment f)
    (hbang : t.head? ≠ some '!') :
    ∃ t', parse t = { basenameOnly := true, pattern := t' } ∧ Spells t' f := by
  obtain ⟨-, hslash⟩ := hf
  obtain ⟨t', hnegation, hspells⟩ := takeNegation_of_spells h hbang
  have hdir : endsInSlash t = false := by
    refine endsInSlash_eq_false fun hlast => hslash ?_
    rw [h.getLast?_eq] at hlast
    exact List.mem_of_getLast? hlast
  have hanchor : takeAnchor t' = (false, t') := by
    rcases takeAnchor_cases t' with ⟨r, rfl, -⟩ | ⟨-, hanchor⟩
    · exact absurd rfl (hspells.head?_ne (c := '/') (by decide) (by decide))
    · exact hanchor
  have hfree : t.contains '/' = false := by
    rw [List.contains_eq_mem, decide_eq_false_iff_not]
    exact fun hmem => hslash (h.mem_of_slash hmem)
  refine ⟨t', ?_, hspells⟩
  simp only [parse, hdir, hnegation, hanchor, hfree, Bool.false_eq_true, if_false]
  rfl

/-- A slash in front of a pattern that ends in none is an anchor. -/
theorem parse_slash {p : Text} (hlast : ('/' :: p).getLast? ≠ some '/') :
    parse ('/' :: p) = { anchored := true, pattern := p } := by
  have hdir : endsInSlash ('/' :: p) = false := endsInSlash_eq_false hlast
  have hnegation : takeNegation ('/' :: p) = (false, '/' :: p) := rfl
  have hanchor : takeAnchor ('/' :: p) = (true, p) := rfl
  simp only [parse, hdir, hnegation, hanchor, Bool.false_eq_true, if_false]
  simp

end Line

namespace Rule

/-! ## Rules -/

/-- **A name without its meanings gives a rule for last segments.** -/
theorem exists_ofLine_escaped (source : Text) (line : Int) {f : Text} (hf : Path.IsSegment f) :
    ∃ g : Glob, (∀ s, g.accepts s = true ↔ s = f) ∧
      ofLine source line (escaped f) =
        .ok (some { basenameOnly := true, source, line, raw := escaped f, glob := g }) := by
  have hne : f ≠ [] := hf.1
  obtain ⟨t, htrimmed, hspells, hbang⟩ := Line.trimmed_append_escaped (u := []) rfl hne
  obtain ⟨t', hparse, hspells'⟩ := Line.parse_of_spells hspells hf hbang
  have hskipped : Line.isSkipped (escaped f) = false := by
    obtain ⟨c, f', rfl⟩ := List.exists_cons_of_ne_nil hne
    exact Line.isSkipped_cons rfl (by decide) _
  obtain ⟨g, hg, haccepts⟩ := Glob.exists_glob_of_spells
    (.cons hspells' .nil) (List.cons_ne_nil f []) (by simpa using hne)
  refine ⟨g, fun s => ?_, ?_⟩
  · rw [haccepts]
    simp
  · rw [List.nil_append, List.nil_append] at htrimmed
    refine ofLine_eq_ok_some hskipped (htrimmed ▸ hparse) ?_
    simpa using hg

/-- The trimmed line of several names: they are spelled, and no slash ends them. -/
theorem exists_trimmed_flatMap {l : List Text} (hne : l ≠ []) (hl : ∀ s ∈ l, Path.IsSegment s) :
    ∃ ts, List.Forall₂ Spells ts l ∧
      Line.trimmed (l.flatMap ('/' :: escaped ·)) = '/' :: ['/'].intercalate ts ∧
      ('/' :: ['/'].intercalate ts).getLast? ≠ some '/' := by
  obtain ⟨init, last, rfl⟩ := (List.eq_nil_or_concat l).resolve_left hne
  rw [List.concat_eq_append] at hl ⊢
  obtain ⟨hlast, hslash⟩ := hl last (by simp)
  have hescape : Line.endsInEscape (init.flatMap ('/' :: escaped ·) ++ ['/']) = false := by
    rw [Line.endsInEscape_concat]
    rfl
  obtain ⟨t, htrimmed, hspells, -⟩ := Line.trimmed_append_escaped hescape hlast
  have hwritten : '/' :: ['/'].intercalate (init.map escaped ++ [t]) =
      init.flatMap ('/' :: escaped ·) ++ ['/'] ++ t := by
    rw [Path.cons_intercalate_eq_flatMap (by simp), List.flatMap_append, List.flatMap_map]
    simp
  refine ⟨init.map escaped ++ [t], ?_, ?_, ?_⟩
  · refine List.rel_append ?_ (.cons hspells .nil)
    rw [List.forall₂_map_left_iff]
    exact List.forall₂_same.mpr fun s _ => Glob.spells_escaped s
  · have hraw : (init ++ [last]).flatMap ('/' :: escaped ·) =
        init.flatMap ('/' :: escaped ·) ++ ['/'] ++ escaped last := by
      simp
    rw [hraw, htrimmed, hwritten]
  · rw [hwritten, List.getLast?_append, hspells.getLast?_eq, List.getLast?_eq_some_getLast hlast,
      Option.some_or]
    intro h
    exact hslash (Option.some.inj h ▸ List.getLast_mem hlast)

/-- **Names without their meanings, a slash in front of each, give a rule for the path of these names.** -/
theorem exists_ofLine_flatMap_escaped (source : Text) (line : Int) {l : List Text} (hne : l ≠ [])
    (hl : ∀ s ∈ l, Path.IsSegment s) :
    ∃ g : Glob, (∀ s, g.accepts s = true ↔ s = ['/'].intercalate l) ∧
      ofLine source line (l.flatMap ('/' :: escaped ·)) =
        .ok (some { anchored := true, source, line, raw := l.flatMap ('/' :: escaped ·), glob := g }) := by
  obtain ⟨ts, hspells, htrimmed, hend⟩ := exists_trimmed_flatMap hne hl
  obtain ⟨g, hg, haccepts⟩ := Glob.exists_glob_of_spells hspells hne fun s hs => (hl s hs).1
  have hskipped : Line.isSkipped (l.flatMap ('/' :: escaped ·)) = false := by
    obtain ⟨s, l', rfl⟩ := List.exists_cons_of_ne_nil hne
    exact Line.isSkipped_cons rfl (by decide) _
  have hparse := Line.parse_slash hend
  rw [← htrimmed] at hparse
  exact ⟨g, haccepts, ofLine_eq_ok_some hskipped hparse hg⟩

/-! ## What they apply to -/

/--
**Every name gives a rule for the paths that end in it, and every path beneath a directory gives a rule
for itself: with a backslash in front of each character of a name, and a slash in front of each name of a
path.**
-/
theorem exists_rule_of_escaped (line : Int) :
    (∀ source f, f ≠ [] → '/' ∉ f →
      ∃ r, ofLine source line (escaped f) = .ok (some r) ∧
        r.negated = false ∧ r.directoryOnly = false ∧ r.basenameOnly = true ∧
        ∀ p isDirectory, Path.IsCanonical p →
          (r.appliesTo p isDirectory = true ↔ (p.splitOn '/').getLast? = some f)) ∧
    ∀ d name l, Path.IsCanonical d → Path.IsSegment name → l ≠ [] → (∀ s ∈ l, Path.IsSegment s) →
      ∃ r, ofLine (Path.join d name) line (l.flatMap ('/' :: escaped ·)) = .ok (some r) ∧
        r.negated = false ∧ r.directoryOnly = false ∧ r.basenameOnly = false ∧ r.anchored = true ∧
        ∀ p isDirectory, Path.IsCanonical p → p ≠ d → Path.isWithin d p = true →
          (r.appliesTo p isDirectory = true ↔ p = Path.join d (['/'].intercalate l)) := by
  constructor
  · intro source f hne hslash
    obtain ⟨g, haccepts, hrule⟩ := exists_ofLine_escaped source line ⟨hne, hslash⟩
    refine ⟨_, hrule, rfl, rfl, rfl, fun p isDirectory hp => ?_⟩
    rw [Path.getLast?_splitOn_of_isCanonical hp, Option.some.injEq, ← haccepts]
    exact Iff.rfl
  · intro d name l hd hname hne hl
    obtain ⟨g, haccepts, hrule⟩ := exists_ofLine_flatMap_escaped (Path.join d name) line hne hl
    refine ⟨_, hrule, rfl, rfl, rfl, rfl, fun p isDirectory hp hpd hwithin => ?_⟩
    rw [← Path.relative?_eq_some_iff_of_isWithin hd hp hpd hwithin, appliesTo, candidate?, baseDir]
    dsimp only
    rw [Path.dirName_join hd hname]
    cases hrelative : Path.relative? d p with
    | none => simp
    | some x => simp [haccepts]

/-- Names of marks and blanks, one by itself and two beneath the root. -/
theorem exists_rule_of_escaped_marks :
    let f := "!\\?  ".toList
    let l := ["#[".toList, "! ".toList]
    let d := Path.root
    let p := "/#[/! ".toList
    ((f ≠ [] ∧ '/' ∉ f) ∧ (Path.IsCanonical d ∧ Path.IsSegment ".aiignore".toList) ∧
      (l ≠ [] ∧ ∀ s ∈ l, Path.IsSegment s) ∧ Path.IsCanonical p ∧ p ≠ d ∧ Path.isWithin d p = true) ∧
    (∃ r, ofLine "/r/.aiignore".toList 3 "\\!\\\\\\?\\ \\ ".toList = .ok (some r) ∧
      (r.appliesTo p true = true ↔ (p.splitOn '/').getLast? = some f)) ∧
    ∃ r, ofLine "/.aiignore".toList 3 "/\\#\\[/\\!\\ ".toList = .ok (some r) ∧
      (r.appliesTo p false = true ↔ p = Path.join d "#[/! ".toList) := by
  intro f l d p
  have hd : Path.IsCanonical d := .inl rfl
  have hp : Path.IsCanonical p := .inr ⟨"#[/! ".toList, rfl, by decide⟩
  have hne : p ≠ d := by decide
  have hwithin : Path.isWithin d p = true := by decide
  have hl : ∀ s ∈ l, Path.IsSegment s := by decide
  obtain ⟨r, hr, -, -, -, happlies⟩ :=
    (exists_rule_of_escaped 3).1 "/r/.aiignore".toList f (by decide) (by decide)
  obtain ⟨r', hr', -, -, -, -, happlies'⟩ :=
    (exists_rule_of_escaped 3).2 d ".aiignore".toList l hd (by decide) (by decide) hl
  exact ⟨⟨⟨by decide, by decide⟩, ⟨hd, by decide⟩, ⟨by decide, hl⟩, hp, hne, hwithin⟩,
    ⟨r, hr, happlies p true hp⟩, r', hr', happlies' p false hp hne hwithin⟩

end Rule

end PathIgnore
