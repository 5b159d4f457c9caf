import PathIgnore.Disk.Basic
import PathIgnore.Path.Basic
import Std.Data.TreeMap

/-!
# Files without directories

A disk that is a table of files by path. Paths are compared as they are written, and a directory is
there when some file lies in it. Every part of a fingerprint can be set, and a file may have a fault
that shows when it is read.
-/

namespace PathIgnore

/-- What happens when a file is read. -/
inductive Flat.Fault where
  /-- The file is not found after all. -/
  | missing
  /-- Reading is not allowed. -/
  | denied
  /-- The file's time goes on by a nanosecond after the reading. -/
  | bump
  /-- The file is gone after the reading. -/
  | vanish
  deriving DecidableEq, Repr

/-- A file with the parts of its fingerprint. -/
structure Flat.File where
  content : ByteArray
  mtimeSec : Int := 1700000000
  mtimeNsec : Int := 12345
  /-- The size to report; the length of the content where none is set. -/
  size : Option Int := none
  inode : Int
  uid : Int := 1357
  gid : Int := 2468
  mode : Int := 33188
  fault : Option Flat.Fault := none

/-- A table of files by path. -/
structure Flat where
  files : Std.TreeMap Text Flat.File
  /-- The number for the next file that is written. -/
  nextInode : Nat
  /-- How often each path has been read as far as decoding. -/
  reads : Std.TreeMap Text Nat

namespace Flat

/-- The fingerprint of a file. -/
def File.fingerprint (f : File) : Fingerprint :=
  ⟨f.mtimeSec, f.mtimeNsec, f.size.getD f.content.size, f.inode, f.uid, f.gid, f.mode⟩

/-- No files; the first one written has the number 1000. -/
def empty : Flat := ⟨∅, 1000, ∅⟩

/-! ## Changes -/

/-- Puts a file at a path. The changes apply to a file with the usual attributes and the next number;
the number is used up even if the changes set another. -/
def write (path : Text) (content : ByteArray) (change : File → File) (d : Flat) : Flat :=
  { d with
    files := d.files.insert path (change { content, inode := d.nextInode })
    nextInode := d.nextInode + 1 }

/-- Changes the file at a path, if there is one. -/
def touch (path : Text) (change : File → File) (d : Flat) : Flat :=
  match d.files[path]? with
  | some f => { d with files := d.files.insert path (change f) }
  | none => d

/-- Takes the file at a path away. -/
def remove (path : Text) (d : Flat) : Flat := { d with files := d.files.erase path }

/-- Whether there is a file at the path. -/
def isFile (path : Text) (d : Flat) : Bool := d.files.contains path

/-! ## Observations -/

/-- What the fault of a file that has been read does to the table. -/
def afterRead (path : Text) (f : File) (d : Flat) : Flat :=
  match f.fault with
  | some .bump => { d with files := d.files.insert path { f with mtimeNsec := f.mtimeNsec + 1 } }
  | some .vanish => d.remove path
  | _ => d

/-- Counts a reading of the path. -/
def countRead (path : Text) (d : Flat) : Flat :=
  { d with reads := d.reads.insert path (d.reads.getD path 0 + 1) }

/-- Reads the file at a path. -/
def readFile (path : Text) (d : Flat) : Reading × Flat :=
  match d.files[path]? with
  | none => (.missing, d)
  | some f =>
    match f.fault with
    | some .missing => (.missing, d)
    | some .denied => (.unreadable (.refused .denied), d)
    | _ =>
      match Reading.ofBytes f.content with
      | .lines ls => (.lines ls, (d.countRead path).afterRead path f)
      | other => (other, d.countRead path)

/-- Whether there is a file at the path or beneath it. -/
def isThere (path : Text) (d : Flat) : Bool :=
  d.isFile path || d.files.keys.any ((Path.dropEndSlashes path ++ Path.root).isPrefixOf ·)

/-- The table as a disk. -/
def disk : Disk Flat where
  stat path d := (.ok (d.files[path]?.map File.fingerprint), d)
  read path d := let (reading, d) := d.readFile path; (.ok reading, d)
  has path d := (d.isThere path, d)

end Flat

end PathIgnore
