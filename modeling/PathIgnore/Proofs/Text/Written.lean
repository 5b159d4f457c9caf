import Mathlib.Data.List.Chain
import PathIgnore.Disk.Tree
import PathIgnore.Proofs.Rule.LineByLine

/-!
# Lines written and read back

Whoever writes lines may end each of them as they like, with LF, CR LF or CR, and leave the last one open.
Reading gives the lines back, however their ends are mixed (`lines_written`).

Two things cannot be written. An open last line without a character is no line. And a CR with nothing but
a LF behind it is the end of one line, not of two; `EndedLine.MayPrecede` keeps these apart.
-/

namespace PathIgnore

namespace Text

/-- What ends a line. -/
inductive Terminator where
  | lf | crLf | cr
  deriving DecidableEq, Repr

/-- The terminator in characters. -/
def Terminator.text : Terminator → Text
  | lf => ['\n']
  | crLf => ['\r', '\n']
  | cr => ['\r']

/-- A line and what ends it. -/
structure EndedLine where
  line : Text
  terminator : Terminator
  deriving DecidableEq, Repr

namespace EndedLine

/-- The line with its end. -/
def text (e : EndedLine) : Text := e.line ++ e.terminator.text

/-- The ends of two lines in a row do not read as one. -/
def MayPrecede (a b : EndedLine) : Prop := ¬ (a.terminator = .cr ∧ b.line = [] ∧ b.terminator = .lf)

instance (a b : EndedLine) : Decidable (MayPrecede a b) := inferInstanceAs (Decidable (¬ _))

end EndedLine

/-- No newline stands in the line. -/
def IsUnbroken (line : Text) : Prop := '\n' ∉ line ∧ '\r' ∉ line

instance (line : Text) : Decidable (IsUnbroken line) := inferInstanceAs (Decidable (_ ∧ _))

/-- Lines as they stand in a file. -/
structure Written where
  ended : List EndedLine
  /-- A last line without an end. -/
  last : Option Text := none
  unbroken : ∀ line ∈ ended.map (·.line) ++ last.toList, IsUnbroken line
  last_ne_nil : last ≠ some []
  isChain : ended.IsChain EndedLine.MayPrecede

namespace Written

/-- The lines. -/
def lines (w : Written) : List Text := w.ended.map (·.line) ++ w.last.toList

/-- The text of the file. -/
def text (w : Written) : Text := w.ended.flatMap EndedLine.text ++ w.last.getD []

/-- The bytes of the file. -/
def bytes (w : Written) : ByteArray := toUtf8 w.text

end Written

/-! ## Unifying newlines -/

theorem unifyNewlines_cons {c : Char} (h : c ≠ '\r') (rest : Text) :
    unifyNewlines (c :: rest) = c :: unifyNewlines rest := by
  rw [unifyNewlines.eq_def]
  exact if_neg h

theorem unifyNewlines_append {line : Text} (h : '\r' ∉ line) (rest : Text) :
    unifyNewlines (line ++ rest) = line ++ unifyNewlines rest := by
  induction line with
  | nil => rfl
  | cons c line ih =>
    rw [List.mem_cons, not_or] at h
    rw [List.cons_append, unifyNewlines_cons (Ne.symm h.1), ih h.2, List.cons_append]

/-- Every terminator is read as LF, a CR unless a LF follows. -/
theorem unifyNewlines_terminator {t : Terminator} {rest : Text}
    (h : t = .cr → rest.head? ≠ some '\n') :
    unifyNewlines (t.text ++ rest) = '\n' :: unifyNewlines rest := by
  cases t with
  | lf => exact unifyNewlines_cons (by decide) rest
  | crLf => simp [Terminator.text, unifyNewlines]
  | cr =>
    cases rest with
    | nil => simp [Terminator.text, unifyNewlines]
    | cons d rest =>
      have hd : d ≠ '\n' := fun heq => h rfl (congrArg some heq)
      simp [Terminator.text, unifyNewlines, hd]

/-! ## Pieces -/

/-- Only an empty line that ends in LF begins with LF. -/
theorem eq_of_head?_text {e : EndedLine} {rest : Text} (he : IsUnbroken e.line)
    (h : (e.text ++ rest).head? = some '\n') : e.line = [] ∧ e.terminator = .lf := by
  obtain ⟨line, terminator⟩ := e
  cases line with
  | cons c line =>
    have hc : c = '\n' := Option.some.inj h
    exact absurd (hc ▸ List.mem_cons_self) he.1
  | nil =>
    cases terminator with
    | lf => exact ⟨rfl, rfl⟩
    | crLf | cr => cases h

/-- A line that is followed by others, or by an open one, is followed by no LF of theirs. -/
theorem head?_ne_of_mayPrecede {e : EndedLine} {ended : List EndedLine} {last : Text}
    (hended : ∀ x ∈ ended, IsUnbroken x.line) (hlast : IsUnbroken last)
    (hchain : (e :: ended).IsChain EndedLine.MayPrecede) (hcr : e.terminator = .cr) :
    (ended.flatMap EndedLine.text ++ last).head? ≠ some '\n' := by
  intro hhead
  cases ended with
  | nil => exact hlast.1 (List.mem_of_head? hhead)
  | cons next ended =>
    rw [List.flatMap_cons, List.append_assoc] at hhead
    obtain ⟨hline, hlf⟩ := eq_of_head?_text (hended next List.mem_cons_self) hhead
    exact (List.isChain_cons_cons.mp hchain).1 ⟨hcr, hline, hlf⟩

/-- **Between the newlines stand the lines, and behind the last newline what is open.** -/
theorem splitOn_unifyNewlines {ended : List EndedLine} {last : Text}
    (hended : ∀ x ∈ ended, IsUnbroken x.line) (hlast : IsUnbroken last)
    (hchain : ended.IsChain EndedLine.MayPrecede) :
    (unifyNewlines (ended.flatMap EndedLine.text ++ last)).splitOn '\n' =
      ended.map (·.line) ++ [last] := by
  induction ended with
  | nil =>
    rw [List.flatMap_nil, List.nil_append, unifyNewlines_eq_self hlast.2,
      List.splitOn_eq_singleton hlast.1]
    rfl
  | cons e ended ih =>
    obtain ⟨he, hrest⟩ := List.forall_mem_cons.mp hended
    have hnext := head?_ne_of_mayPrecede hrest hlast hchain
    rw [List.flatMap_cons, List.append_assoc, EndedLine.text, List.append_assoc,
      unifyNewlines_append he.2, unifyNewlines_terminator hnext,
      List.splitOn_append_cons_self_of_not_mem he.1, ih hrest hchain.tail]
    rfl

/-- An empty last piece is no line. -/
theorem splitLines_of_splitOn {t : Text} {pieces : List Text} {last : Option Text}
    (hne : last ≠ some []) (h : t.splitOn '\n' = pieces ++ [last.getD []]) :
    splitLines t = pieces ++ last.toList := by
  rw [splitLines, h, List.getLast?_concat, List.dropLast_concat]
  cases last with
  | none => rw [Option.getD_none, if_pos rfl, Option.toList_none, List.append_nil]
  | some line =>
    rw [Option.getD_some, if_neg fun heq => hne heq]
    rfl

/-- **Reading gives back the lines that were written.** -/
theorem lines_written (w : Written) : lines w.text = w.lines := by
  have hunbroken := List.forall_mem_append.mp w.unbroken
  have hended : ∀ x ∈ w.ended, IsUnbroken x.line := List.forall_mem_map.mp hunbroken.1
  have hlast : IsUnbroken (w.last.getD []) := by
    cases hopen : w.last with
    | none => exact ⟨List.not_mem_nil, List.not_mem_nil⟩
    | some line => exact hunbroken.2 line (by rw [hopen]; exact List.mem_singleton_self line)
  exact splitLines_of_splitOn w.last_ne_nil (splitOn_unifyNewlines hended hlast w.isChain)

/-- A CR and the LF of an empty line would be one end. -/
example : lines ((⟨"a".toList, .cr⟩ : EndedLine).text ++ (⟨[], .lf⟩ : EndedLine).text) =
    ["a".toList] := by decide +kernel

end Text

/-! ## Files -/

theorem Tree.read_of_file {t : Tree} {path : Text} {place : Place} {f : File}
    (hnul : hasNul path = false) (hplace : t.locate true path = .ok place)
    (hfile : t.find? place = some (.file f)) : disk.read path t = (.ok (.ofBytes f.content), t) := by
  have hread : t.readFile path = .ofBytes f.content := by
    rw [readFile, hplace]
    dsimp only
    rw [hfile]
  show (if hasNul path then _ else Except.ok (t.readFile path), t) = _
  rw [hnul, hread]
  rfl

namespace Text

/-- **A file is read as the lines that were written to it.** So it is in a tree, where the path leads to
a file with these bytes; and in the rule set of the file each line stands under its own number. -/
theorem reads_written (w : Written) :
    linesOfUtf8? w.bytes = some w.lines ∧
    (∀ (t : Tree) (path : Text) (place : Tree.Place) (f : Tree.File), Tree.hasNul path = false →
      t.locate true path = .ok place → t.find? place = some (.file f) → f.content = w.bytes →
        Tree.disk.read path t = (.ok (.lines w.lines), t)) ∧
    ∀ source, ∃ rules, (linesOfUtf8? w.bytes).map (RuleSet.ofLines source) = some rules ∧
      RuleSet.ReadsLineByLine source w.lines rules := by
  have hlines : linesOfUtf8? w.bytes = some w.lines := by
    rw [Written.bytes, linesOfUtf8?_toUtf8, lines_written]
  refine ⟨hlines, ?_, fun source => ⟨.ofLines source w.lines, ?_, RuleSet.readsLineByLine_ofLines _ _⟩⟩
  · intro t path place f hnul hplace hfile hcontent
    rw [Tree.read_of_file hnul hplace hfile, hcontent, Reading.ofBytes, hlines]
    rfl
  · rw [hlines]
    rfl

/-- All three ends, empty lines among them, and characters that end lines elsewhere. -/
def mixed : Written where
  ended := [⟨"a\x0cb".toList, .cr⟩, ⟨[], .crLf⟩, ⟨"\u0085a".toList, .cr⟩, ⟨"\u2028a".toList, .lf⟩,
    ⟨[], .lf⟩, ⟨[], .cr⟩]
  last := some "[".toList
  unbroken := by decide
  last_ne_nil := by decide
  isChain := by decide

/-- A tree with this file. -/
def mixedTree : Tree := Tree.empty.put ["f".toList] (.file ⟨mixed.bytes, 1000, 420, 0⟩)

/-- The file holds these characters, and the set that is left open on its last line is reported on line
seven. -/
theorem reads_written_mixed :
    mixed.text = "a\x0cb\r\r\n\u0085a\r\u2028a\n\n\r[".toList ∧
    linesOfUtf8? mixed.bytes = some mixed.lines ∧
    Tree.disk.read "/f".toList mixedTree = (.ok (.lines mixed.lines), mixedTree) ∧
    ∃ rules, (linesOfUtf8? mixed.bytes).map (RuleSet.ofLines "/r/.aiignore".toList) = some rules ∧
      rules.errors.map (·.line) = [7] := by
  obtain ⟨hlines, hread, hrules⟩ := reads_written mixed
  obtain ⟨rules, hsome, -⟩ := hrules "/r/.aiignore".toList
  have hplace : mixedTree.locate true "/f".toList = .ok ["f".toList] := by decide +kernel
  refine ⟨by decide +kernel, hlines, hread _ _ _ _ (by decide) hplace rfl rfl, rules, hsome, ?_⟩
  rw [hlines] at hsome
  cases hsome
  decide +kernel

end Text

end PathIgnore
