import PathIgnore.Disk.Basic
import PathIgnore.Path.Basic
import Std.Data.TreeMap

/-!
# A tree of directories, files and links

A disk as an operating system keeps it: directories hold files, further directories and symbolic links,
and a path is followed one segment at a time. An entry is known by its place, the list of the segments
that lead to it, the innermost first.

Following a path ends because each segment is taken once until a link is met, and no more than
`maxLinks` links are followed.
-/

namespace PathIgnore

/-- A place in the tree: the segments of a path without links and dots, the innermost first. -/
abbrev Tree.Place := List Text

/-- A file's bytes and what is known about them. -/
structure Tree.File where
  content : ByteArray
  inode : Nat
  /-- The permission bits. -/
  mode : Int
  /-- The time of the last change in nanoseconds. -/
  mtime : Int

/-- What is at a place. -/
inductive Tree.Entry where
  | directory (inode : Nat)
  | file (f : Tree.File)
  | link (target : Text)

/-- A tree. The root directory is always there and has no entry. -/
structure Tree where
  entries : Std.TreeMap Tree.Place Tree.Entry
  /-- The number for the next entry that is made. -/
  nextInode : Nat

namespace Tree

/-- A tree with nothing but its root. -/
def empty : Tree := ⟨∅, 1000⟩

/-! ## Following a path -/

/-- Bytes that a segment may have at most. -/
def maxNameBytes : Nat := 255

/-- Bytes that a path may have at most. -/
def maxPathBytes : Nat := 4095

/-- Links that are followed at most on the way to an entry. -/
def maxLinks : Nat := 40

/-- The bytes of a text in UTF-8. -/
def byteCount (t : Text) : Nat := t.foldl (fun count c => count + c.utf8Size) 0

/-- Where following segments leads before the next link is taken. -/
inductive Stop where
  /-- At this place; there may or may not be an entry. -/
  | reached (place : Place)
  /-- At a link in this directory, with segments still to come. -/
  | link (directory : Place) (target : Text) (rest : List Text)

/-- Follows segments from a directory up to the end or the next link. A link that is the last segment
is followed only if asked for. -/
def advance (t : Tree) (followLast : Bool) : Place → List Text → Except DiskFault Stop
  | here, [] => .ok (.reached here)
  | here, segment :: rest =>
    if segment = [] ∨ segment = ['.'] then advance t followLast here rest
    else if segment = ['.', '.'] then advance t followLast here.tail rest
    else if maxNameBytes < byteCount segment then .error .nameTooLong
    else
      let place := segment :: here
      match t.entries[place]? with
      | some (.directory _) => advance t followLast place rest
      | some (.file _) => if rest.isEmpty then .ok (.reached place) else .error .notDirectory
      | some (.link target) =>
        if rest.isEmpty && !followLast then .ok (.reached place) else .ok (.link here target rest)
      | none => if rest.isEmpty then .ok (.reached place) else .error .notFound

/-- Follows segments from a directory, and `links` links at most. -/
def walk (t : Tree) (followLast : Bool) : Nat → Place → List Text → Except DiskFault Place
  | links, here, segments =>
    match t.advance followLast here segments with
    | .error e => .error e
    | .ok (.reached place) => .ok place
    | .ok (.link directory target rest) =>
      match links with
      | 0 => .error .tooManyLinks
      | links + 1 =>
        -- A relative target starts in the directory that holds the link.
        walk t followLast links (if target.head? = some '/' then [] else directory)
          (target.splitOn '/' ++ rest)

/-- The place that a path leads to from the root. -/
def locate (t : Tree) (followLast : Bool) (path : Text) : Except DiskFault Place :=
  if path = [] then .error .notFound
  else if maxPathBytes < byteCount path then .error .nameTooLong
  else t.walk followLast maxLinks [] (path.splitOn '/')

/-- The number of the root directory. -/
def rootInode : Nat := 2

/-- What is at a place; the root is a directory. -/
def find? (t : Tree) (place : Place) : Option Entry :=
  if place = [] then some (.directory rootInode) else t.entries[place]?

/-! ## Observations -/

/-- The type bits of a regular file's mode. -/
def regularFile : Int := 32768

/-- The mode of a directory. -/
def directoryMode : Int := 16877

/-- The fingerprint of an entry that is no link. -/
def Entry.fingerprint? : Entry → Option Fingerprint
  | directory inode => some (.ofStat ⟨0, 4096, inode, 0, 0, directoryMode⟩)
  | file f => some (.ofStat ⟨f.mtime, f.content.size, f.inode, 0, 0, regularFile + f.mode⟩)
  | link _ => none

/-- The fingerprint of what a path leads to; none if it leads nowhere. -/
def stat (t : Tree) (path : Text) : Option Fingerprint :=
  match t.locate true path with
  | .error _ => none
  | .ok place => (t.find? place).bind Entry.fingerprint?

/-- Reads the file that a path leads to. -/
def readFile (t : Tree) (path : Text) : Reading :=
  match t.locate true path with
  | .error .notFound => .missing
  | .error fault => .unreadable (.refused fault)
  | .ok place =>
    match t.find? place with
    | some (.file f) => .ofBytes f.content
    | some (.directory _) => .unreadable (.refused .isDirectory)
    | _ => .missing

/-- Whether a path leads to an entry, a link at its end counting as it stands. -/
def isThere (t : Tree) (path : Text) : Bool :=
  match t.locate false path with
  | .error _ => false
  | .ok place => (t.find? place).isSome

/-- Whether the text holds U+0000. -/
def hasNul (path : Text) : Bool := path.contains '\x00'

/-- The tree as a disk. -/
def disk : Disk Tree where
  stat path t := (if hasNul path then .error .embeddedNul else .ok (t.stat path), t)
  read path t := (if hasNul path then .error .embeddedNul else .ok (t.readFile path), t)
  has path t := (!hasNul path && t.isThere path, t)

/-! ## Changes -/

/-- Puts an entry at a place and uses up a number. -/
def put (t : Tree) (place : Place) (e : Entry) : Tree :=
  ⟨t.entries.insert place e, t.nextInode + 1⟩

/-- Makes one directory, unless it is there. -/
def makeOne (t : Tree) (path : Text) : Except DiskFault Tree :=
  match t.locate true path with
  | .error e => .error e
  | .ok place =>
    match t.find? place with
    | some (.directory _) => .ok t
    | some _ => .error .alreadyExists
    | none =>
      if t.isThere path then .error .alreadyExists
      else .ok (t.put place (.directory t.nextInode))

/-- Makes a directory and those above it, as far as they are not there. -/
def makeDirectory (t : Tree) (path : Text) : Except DiskFault Tree :=
  (Path.trimEnd path :: Path.ancestors path).reverse.foldlM makeOne t

/-- Writes a file and makes the directories above it. A link is followed, and a file that is there keeps
its number. -/
def write (t : Tree) (path : Text) (content : ByteArray) (mode mtime : Int) : Except DiskFault Tree :=
  match t.makeDirectory (Path.dirName path) with
  | .error e => .error e
  | .ok t =>
    match t.locate true path with
    | .error e => .error e
    | .ok place =>
      match t.find? place with
      | some (.directory _) => .error .isDirectory
      | some (.file f) =>
        .ok { t with entries := t.entries.insert place (.file { f with content, mode, mtime }) }
      | _ => .ok (t.put place (.file { content, inode := t.nextInode, mode, mtime }))

/-- Makes a link. -/
def makeLink (t : Tree) (path target : Text) : Except DiskFault Tree :=
  match t.locate false path with
  | .error e => .error e
  | .ok place =>
    match t.find? place with
    | some _ => .error .alreadyExists
    | none => .ok (t.put place (.link target))

/-- Takes a file or a link away. -/
def remove (t : Tree) (path : Text) : Except DiskFault Tree :=
  match t.locate false path with
  | .error e => .error e
  | .ok place =>
    match t.find? place with
    | none => .error .notFound
    | some (.directory _) => .error .isDirectory
    | some _ => .ok { t with entries := t.entries.erase place }

end Tree

end PathIgnore
