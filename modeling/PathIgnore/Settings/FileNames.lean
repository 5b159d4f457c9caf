import PathIgnore.Text.Blank
import PathIgnore.Value.Field

/-!
# Names of ignore files

Ignore files are looked up by name in every directory of interest, so a name has to be usable as one
segment of a path: not empty, without blanks at its ends, and without a separator of either kind.
`FileNames` is a list of such names, at least one, in order of precedence and without repetition.
-/

namespace PathIgnore

/-- Erasing repetitions leaves none. -/
theorem nodup_eraseDups {α : Type} [BEq α] [LawfulBEq α] (l : List α) : l.eraseDups.Nodup := by
  match l with
  | [] => simp
  | a :: as =>
    rw [List.eraseDups_cons, List.nodup_cons]
    exact ⟨by simp [List.mem_eraseDups], nodup_eraseDups _⟩
termination_by l.length
decreasing_by
  have := List.length_filter_le (fun b => !b == a) as
  simp
  omega

/-! ## Names -/

/-- Whether a separator of either kind occurs in the text. -/
def hasSeparator (t : Text) : Bool := t.contains '/' || t.contains '\\'

/-- A name that can stand as one segment of a path. -/
def IsFileName (t : Text) : Prop := t ≠ [] ∧ Text.strip t = t ∧ hasSeparator t = false

instance (t : Text) : Decidable (IsFileName t) := inferInstanceAs (Decidable (_ ∧ _ ∧ _))

/-- The name of an ignore file. -/
abbrev FileName := { t : Text // IsFileName t }

/-- The names of ignore files, in order of precedence. -/
structure FileNames where
  toList : List FileName
  ne_nil : toList ≠ []
  nodup : toList.Nodup
  deriving DecidableEq

namespace FileNames

/-- The texts that are left of the supplied ones: stripped, without the blank ones. -/
def candidates (items : List Text) : List Text := (items.map Text.strip).filter (!List.isEmpty ·)

theorem of_mem_candidates {items : List Text} {t : Text} (h : t ∈ candidates items) :
    t ≠ [] ∧ Text.strip t = t := by
  obtain ⟨hmap, hne⟩ := List.mem_filter.mp h
  obtain ⟨s, _, rfl⟩ := List.mem_map.mp hmap
  exact ⟨by simpa using hne, Text.strip_strip s⟩

/-- The names among supplied texts: each stripped, blank ones dropped, repetitions erased. There must be
one at least, and none may hold a separator. -/
def ofTexts (items : List Text) : Except FieldFault FileNames :=
  match hfind : (candidates items).find? hasSeparator with
  | some name => .error (.separatorInFileName name)
  | none =>
    let names := (candidates items).pmap (fun t h => (⟨t, h⟩ : FileName)) fun t ht =>
      have hfile := of_mem_candidates ht
      ⟨hfile.1, hfile.2, by simpa using List.find?_eq_none.mp hfind t ht⟩
    if hnil : names.eraseDups = [] then .error .noFileName
    else .ok ⟨names.eraseDups, hnil, nodup_eraseDups names⟩

/-- The names as texts. -/
def texts (names : FileNames) : List Text := names.toList.map (·.val)

/-- One name alone. -/
def single (name : FileName) : FileNames := ⟨[name], by simp, by simp⟩

end FileNames

end PathIgnore
