import PathIgnore.Path.Basic
import PathIgnore.Text.Utf8
import PathIgnore.Text.Quoted

/-!
# What is seen of a disk

Three observations are made of a disk: the fingerprint of a file, its lines, and whether an entry is
there. `Disk σ` says how a disk in state `σ` answers them. An observation may change the state, so a
disk may also be one that others write to while it is watched.

A text with U+0000 in it names no file; asking for its fingerprint or its lines is a fault of the path
(`PathFault`) and no answer of the disk.
-/

namespace PathIgnore

/-! ## Fingerprints -/

/-- What the operating system says about a file. The time is in nanoseconds. -/
structure FileStat where
  mtime : Int
  size : Int
  inode : Int
  uid : Int
  gid : Int
  mode : Int
  deriving DecidableEq, Repr

/-- What has to stay the same for a file to count as unchanged. -/
structure Fingerprint where
  mtimeSec : Int
  mtimeNsec : Int
  size : Int
  inode : Int
  uid : Int
  gid : Int
  mode : Int
  deriving DecidableEq, Repr

namespace Fingerprint

/-- Nanoseconds in a second. -/
def nanosPerSecond : Int := 1000000000

/-- The fingerprint of a file; the nanoseconds of its time are never negative. -/
def ofStat (s : FileStat) : Fingerprint :=
  ⟨s.mtime / nanosPerSecond, s.mtime % nanosPerSecond, s.size, s.inode, s.uid, s.gid, s.mode⟩

end Fingerprint

/-! ## Faults -/

/-- Why the operating system refuses something. -/
inductive DiskFault where
  | notFound
  | denied
  | alreadyExists
  | notDirectory
  | isDirectory
  | nameTooLong
  | tooManyLinks
  deriving DecidableEq, Repr

namespace DiskFault

/-- The number of the fault. -/
def number : DiskFault → Nat
  | notFound => 2
  | denied => 13
  | alreadyExists => 17
  | notDirectory => 20
  | isDirectory => 21
  | nameTooLong => 36
  | tooManyLinks => 40

/-- The fault in words. -/
def words : DiskFault → String
  | notFound => "No such file or directory"
  | denied => "Permission denied"
  | alreadyExists => "File exists"
  | notDirectory => "Not a directory"
  | isDirectory => "Is a directory"
  | nameTooLong => "File name too long"
  | tooManyLinks => "Too many levels of symbolic links"

/-- The fault with its number and the path concerned. -/
def describe (f : DiskFault) (path : Text) : String :=
  "[Errno " ++ toString f.number ++ "] " ++ f.words ++ ": " ++ String.ofList (Text.quoted path)

end DiskFault

/-- Why a file that is there cannot be read. -/
inductive ReadFault where
  /-- The operating system refuses. -/
  | refused (fault : DiskFault)
  /-- The bytes are no UTF-8. -/
  | undecodable
  deriving DecidableEq, Repr

/-- What comes of reading a file. -/
inductive Reading where
  | missing
  | unreadable (fault : ReadFault)
  | lines (lines : List Text)
  deriving DecidableEq, Repr

/-- What comes of reading a file with these bytes. -/
def Reading.ofBytes (bytes : ByteArray) : Reading :=
  (Text.linesOfUtf8? bytes).elim (.unreadable .undecodable) .lines

/-! ## Disks -/

/-- How a disk in a state answers, and the state it is in afterwards. -/
structure Disk (σ : Type) where
  /-- The fingerprint of a file, links followed; none if there is nothing to see. -/
  stat : Text → σ → Except PathFault (Option Fingerprint) × σ
  /-- The lines of a file, links followed. -/
  read : Text → σ → Except PathFault Reading × σ
  /-- Whether an entry is there; a link counts as it stands. -/
  has : Text → σ → Bool × σ

end PathIgnore
