import PathIgnore.Disk.Flat
import PathIgnore.Disk.Tree
import PathIgnore.Session.Basic
import PathIgnore.Settings.Logging
import PathIgnore.Proofs.Glob.Language
import PathIgnore.Proofs.Glob.Search
import PathIgnore.Proofs.Path.Normal
import PathIgnore.Proofs.Cache.Load
import PathIgnore.Proofs.Disk.Timeline
import PathIgnore.Proofs.Resolve.Effect
import PathIgnore.Proofs.Resolve.InStep
import PathIgnore.Proofs.Resolve.Silent
import PathIgnore.Proofs.Session.Run
import PathIgnore.Proofs.Cache.Coherent
import PathIgnore.Proofs.Session.Coherence
import PathIgnore.Proofs.Resolve.Boundary
import PathIgnore.Proofs.Resolve.Unchanged
import PathIgnore.Proofs.Rule.Decisive
import PathIgnore.Proofs.Resolve.Reference
import PathIgnore.Proofs.Session.Afresh
import PathIgnore.Proofs.Resolve.Opaque
import PathIgnore.Proofs.Path.Ancestors
import PathIgnore.Proofs.Path.Climb
import PathIgnore.Proofs.Glob.Turns
import PathIgnore.Proofs.Resolve.Levels
import PathIgnore.Proofs.Resolve.Shown
import PathIgnore.Proofs.Rule.Lines
import PathIgnore.Proofs.Session.Consistent
import PathIgnore.Proofs.Resolve.Inward
import PathIgnore.Proofs.Resolve.Edits
import PathIgnore.Proofs.Path.Rebase
import PathIgnore.Proofs.Resolve.Relocation
import PathIgnore.Proofs.Session.Reports
import PathIgnore.Proofs.Resolve.Refused
import PathIgnore.Proofs.Session.Refused
import PathIgnore.Proofs.Glob.OpenClass
import PathIgnore.Proofs.Glob.Joined
import PathIgnore.Proofs.Path.Canonical
import PathIgnore.Proofs.Path.Backslash
import PathIgnore.Proofs.Rule.Escaped
import PathIgnore.Proofs.Glob.Neighbours
import PathIgnore.Proofs.Glob.Respelled
import PathIgnore.Proofs.Glob.WrittenSet
import PathIgnore.Proofs.Rule.DoubledSlash
import PathIgnore.Proofs.Path.Hierarchy
import PathIgnore.Proofs.Rule.Depth
import PathIgnore.Proofs.Rule.FirstMatch
import PathIgnore.Proofs.Rule.LineByLine
import PathIgnore.Proofs.Cache.Counts
import PathIgnore.Proofs.Session.Counts
import PathIgnore.Proofs.Session.Outside
import PathIgnore.Proofs.Session.OnePath
import PathIgnore.Proofs.Text.Written
import PathIgnore.Proofs.Cache.Sourced
import PathIgnore.Proofs.Rule.Scope
import PathIgnore.Proofs.Resolve.Outside
import PathIgnore.Proofs.Session.FileNames
import PathIgnore.Proofs.Settings.FileNames
import PathIgnore.Proofs.Settings.Logging
