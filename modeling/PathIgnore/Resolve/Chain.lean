import PathIgnore.Disk.Basic
import PathIgnore.Path.Basic

/-!
# From a path to its boundary root

The boundary root of a path is the nearest directory above it that holds the boundary marker. The chain
of a path starts with the path and goes up, directory by directory, as far as the boundary root; without
one it is the path and its directory.

A boundary root that does not lie above the path gives no chain. Looking for the root never gives such
a one, but a caller may name any.
-/

namespace PathIgnore

/-- Why there is no chain between a path and a boundary root. -/
inductive ChainFault where
  /-- The root is no ancestor of the path. -/
  | notBeneath
  /-- Going up from the path ends at `last` and misses the root. -/
  | missed (last : Text)
  deriving DecidableEq, Repr

/-- A path and a boundary root that do not go together. -/
structure ChainError where
  path : Text
  boundaryRoot : Text
  fault : ChainFault
  deriving DecidableEq, Repr

/-- The error in words. -/
def ChainError.message (e : ChainError) : String :=
  let root := String.ofList e.boundaryRoot
  match e.fault with
  | .notBeneath =>
    "Path '" ++ String.ofList e.path ++ "' is not prefixed by the inferred boundary root '" ++ root ++ "'"
  | .missed last =>
    "The last path '" ++ String.ofList last ++ "' is not the boundary root '" ++ root ++ "'"

namespace Chain

/-- The members of the list up to the first that equals `stop`, that one included. -/
def through (stop : Text) : List Text → List Text
  | [] => []
  | p :: rest => if p = stop then [p] else p :: through stop rest

/-- The last member of a chain that starts with `path`. -/
def last (path : Text) (above : List Text) : Text := above.getLast?.getD path

/-- The path, the directory that holds it, and so on up to the boundary root. -/
def between (path : Text) (boundaryRoot : Option Text) : Except ChainError (List Text) :=
  match boundaryRoot with
  | none => .ok [path, Path.dirName path]
  | some root =>
    if Path.relative? root path = none then .error ⟨path, root, .notBeneath⟩
    else
      let above := through root (Path.ancestors path)
      if last path above = root then .ok (path :: above)
      else .error ⟨path, root, .missed (last path above)⟩

/-- The first of the directories that holds the marker. -/
def firstWithMarker {σ : Type} (d : Disk σ) (marker : Text) : List Text → σ → Option Text × σ
  | [], w => (none, w)
  | directory :: rest, w =>
    let (there, w) := d.has (Path.join directory marker) w
    if there then (some directory, w) else firstWithMarker d marker rest w

/-- The boundary root of a path: the nearest directory above it that holds the marker. -/
def findBoundaryRoot {σ : Type} (d : Disk σ) (marker path : Text) (w : σ) : Option Text × σ :=
  firstWithMarker d marker (Path.ancestors path) w

/-- What lies within the boundary is a part of the list. -/
theorem mem_of_mem_through {stop p : Text} {l : List Text} (h : p ∈ through stop l) : p ∈ l := by
  induction l with
  | nil => cases h
  | cons q rest ih =>
    unfold through at h
    split at h
    · exact List.mem_singleton.mp h ▸ List.mem_cons_self
    · rcases List.mem_cons.mp h with rfl | hrest
      · exact List.mem_cons_self
      · exact List.mem_cons_of_mem _ (ih hrest)

/-- A boundary root is one of the directories that were asked. -/
theorem mem_of_firstWithMarker {σ : Type} {d : Disk σ} {marker p : Text} {l : List Text} {w : σ}
    (h : (firstWithMarker d marker l w).1 = some p) : p ∈ l := by
  induction l generalizing w with
  | nil => cases h
  | cons q rest ih =>
    unfold firstWithMarker at h
    dsimp only at h
    split at h
    · cases h; exact List.mem_cons_self
    · exact List.mem_cons_of_mem _ (ih h)

end Chain

end PathIgnore
