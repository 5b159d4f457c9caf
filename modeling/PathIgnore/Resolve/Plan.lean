import PathIgnore.Resolve.Chain
import PathIgnore.Settings.FileNames

/-!
# What is consulted for a path

Resolving a path consults ignore files one after the other, from the boundary root inward, in every
directory the names in their order. The rules of each are held against what lies inward of its
directory on the chain, the outermost first; every entry of the chain but the path itself is a
directory.

`Plan.ofChain` lists these consultations beforehand. They hang on the chain and on the names alone,
and on no file.
-/

namespace PathIgnore

/-- A path that rules are held against. -/
structure Candidate where
  path : Text
  isDirectory : Bool
  deriving DecidableEq, Repr

/-- An ignore file and what its rules are held against, in order. -/
structure Consultation where
  file : Text
  candidates : List Candidate
  deriving DecidableEq, Repr

namespace Plan

/-- The candidates on a part of a chain, the outermost first; the last one is the path itself. -/
def candidates : List Text → List Candidate
  | [] => []
  | [path] => [⟨path, false⟩]
  | directory :: inner => ⟨directory, true⟩ :: candidates inner

/-- The consultations in one directory. -/
def inDirectory (names : List Text) (directory : Text) (inner : List Text) : List Consultation :=
  names.map fun name => ⟨Path.join directory name, candidates inner⟩

/-- The consultations along a chain that is given from the outside in. -/
def inward (names : List Text) : List Text → List Consultation
  | [] => []
  | [_] => []
  | directory :: p :: inner => inDirectory names directory (p :: inner) ++ inward names (p :: inner)

/-- The consultations for a chain that starts with the path. -/
def ofChain (names : List Text) (chain : List Text) : List Consultation := inward names chain.reverse

/-- The files lie in the directories of the chain, under the names. What the chain ends in is the path
itself and no directory. -/
theorem exists_of_mem_inward {names : List Text} {l : List Text} {c : Consultation}
    (h : c ∈ inward names l) :
    ∃ directory ∈ l.dropLast, ∃ name ∈ names, c.file = Path.join directory name := by
  induction l with
  | nil => cases h
  | cons directory rest ih =>
    cases rest with
    | nil => cases h
    | cons p inner =>
      rw [List.dropLast_cons_cons]
      rcases List.mem_append.mp h with hhere | hinner
      · obtain ⟨name, hname, rfl⟩ := List.mem_map.mp hhere
        exact ⟨directory, List.mem_cons_self, name, hname, rfl⟩
      · obtain ⟨q, hq, hrest⟩ := ih hinner
        exact ⟨q, List.mem_cons_of_mem _ hq, hrest⟩

end Plan

end PathIgnore
