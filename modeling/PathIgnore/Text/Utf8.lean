import PathIgnore.Text.Lines

/-!
# Bytes of a text

A file holds bytes, and they are read as UTF-8, strictly: one byte out of place and there is no text.
A byte-order mark is a character like any other.
-/

namespace PathIgnore.Text

/-- The bytes of a text in UTF-8. -/
def toUtf8 (t : Text) : ByteArray := (String.ofList t).toUTF8

/-- The text that the bytes encode. -/
def ofUtf8? (bytes : ByteArray) : Option Text := bytes.utf8Decode?.map Array.toList

/-- Reading the bytes of a text gives the text. -/
theorem ofUtf8?_toUtf8 (t : Text) : ofUtf8? (toUtf8 t) = some t := by
  have h : toUtf8 t = t.utf8Encode := rfl
  rw [ofUtf8?, h, List.utf8Decode?_utf8Encode]
  simp

/-- The lines of a file with these bytes. -/
def linesOfUtf8? (bytes : ByteArray) : Option (List Text) := (ofUtf8? bytes).map lines

theorem linesOfUtf8?_toUtf8 (t : Text) : linesOfUtf8? (toUtf8 t) = some (lines t) := by
  rw [linesOfUtf8?, ofUtf8?_toUtf8]
  rfl

end PathIgnore.Text
