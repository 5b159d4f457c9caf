import PathIgnore.Resolve.Chain
import PathIgnore.Rule.Verdict
import PathIgnore.Settings.Basic

/-!
# Notices

What happens on the way to an answer is told in notices, in order. Most of them are told only if a flag
asks for their kind, and each is told or not where it arises; that a file has changed is told always.
-/

namespace PathIgnore

/-- How much a notice weighs. -/
inductive NoticeLevel where
  | debug | warning | error
  deriving DecidableEq, Repr

/-- Something that happened. -/
inductive Notice where
  /-- A remembered file has changed and is forgotten. -/
  | stale (path : Text)
  /-- A file changed while it was read, and is not remembered. -/
  | changedDuringRead (path : Text)
  /-- A file that is there could not be read. -/
  | unreadable (path : Text) (fault : ReadFault)
  /-- A line did not compile. -/
  | badRule (error : RuleError)
  /-- A file was gone after it had been read. -/
  | vanished (path : Text)
  /-- There is no chain between a path and its boundary root. -/
  | inconsistent (error : ChainError)
  /-- The boundary root of a path has been settled. -/
  | boundaryRoot (path : Text) (root : Option Text)
  /-- The chain of a path has been built. -/
  | chain (paths : List Text)
  /-- A path is held against the rules of a file. -/
  | checking (path file : Text) (isDirectory : Bool)
  /-- A rule decides about a path. -/
  | matched (path : Text) (rule : Rule)
  /-- The verdict is that the path is ignored. -/
  | ignored (verdict : Verdict)
  /-- The verdict is that the path is not ignored. -/
  | notIgnored (verdict : Verdict)

namespace Notice

/-- The weight of a notice. -/
def level : Notice → NoticeLevel
  | stale _ | changedDuringRead _ | boundaryRoot .. | chain _ | checking .. | matched .. => .debug
  | unreadable .. | ignored _ | notIgnored _ => .warning
  | badRule _ | vanished _ | inconsistent _ => .error

/-- These notices if they are asked for, and else none. -/
def tell (asked : Bool) (notices : List Notice) : List Notice := if asked then notices else []

@[simp] theorem mem_tell {asked : Bool} {notices : List Notice} {n : Notice} :
    n ∈ tell asked notices ↔ asked = true ∧ n ∈ notices := by
  cases asked <;> simp [tell]

end Notice

end PathIgnore
