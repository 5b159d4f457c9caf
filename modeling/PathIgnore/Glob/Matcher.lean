import PathIgnore.Glob.Token
import Std.Data.TreeSet

/-!
# Matching a candidate

The tokens of a pattern become a chain of nodes, in which neighbouring literals and separators are one
run of text. A node says where it may stop: the rests of the candidate after each stretch that it can
take, the shortest stretch first.

The search keeps a stack of positions, a position being the nodes still to pass and the rest of the
candidate. A position is explored once: `seen` remembers it by the two lengths, which determine it.

The stack empties after at most `1 + m * (n + 1) ^ 2` steps for `m` nodes and `n` characters. That
bound is the fuel of `run`; `passes` never runs out of it.
-/

namespace PathIgnore.Glob

/-! ## Nodes -/

/-- One step of the chain that a candidate has to pass. -/
inductive Node where
  /-- These characters. -/
  | run (text : Text)
  /-- One character other than a slash. -/
  | anyChar
  /-- One character that the set takes. -/
  | oneOf (set : CharSet)
  /-- Any run without a slash. -/
  | star
  /-- Any number of whole segments, each with its slash. -/
  | segments
  /-- Anything. -/
  | rest
  deriving DecidableEq, Repr

/-- Puts a run of text in front, joining it to a run that follows. -/
def Node.consRun (t : Text) : List Node → List Node
  | run u :: ns => run (t ++ u) :: ns
  | ns => run t :: ns

/-- Puts the node for a token in front of a chain. -/
def Token.consNode (t : Token) (ns : List Node) : List Node :=
  match t with
  | literal w => Node.consRun w ns
  | separator => Node.consRun ['/'] ns
  | star => .star :: ns
  | globstar => .rest :: ns
  | globstarSlash => .segments :: ns
  | anyChar => .anyChar :: ns
  | bracket _ set => .oneOf set :: ns

/-- The chain of nodes for a pattern's tokens. -/
def chain (ts : List Token) : List Node := ts.foldr Token.consNode []

/-! ## Where a node may stop -/

/-- The rests after no character, after one, and so on as far as the first slash or the end. -/
def starStops : Text → List Text
  | [] => [[]]
  | c :: r => if c = '/' then [c :: r] else (c :: r) :: starStops r

/-- Every rest of the text, the whole text first. -/
def allStops : Text → List Text
  | [] => [[]]
  | c :: r => (c :: r) :: allStops r

/-- The rests after each whole segment that follows; `inside` tells whether the segment at hand has a
character already. An empty segment ends the list. -/
def segmentEnds (inside : Bool) : Text → List Text
  | [] => []
  | c :: r =>
    if c = '/' then if inside then r :: segmentEnds false r else []
    else segmentEnds true r

/-- The rests of the candidate after the stretches that the node takes, the shortest first. -/
def Node.stops : Node → Text → List Text
  | run t, s => (t.isPrefixOf? s).toList
  | anyChar, c :: r => if c = '/' then [] else [r]
  | anyChar, [] => []
  | oneOf set, c :: r => if set.accepts c then [r] else []
  | oneOf _, [] => []
  | star, s => starStops s
  | segments, s => s :: segmentEnds false s
  | rest, s => allStops s

/-! ## The search -/

/-- A position of the search: the nodes still to pass and the rest of the candidate. -/
abbrev Position := List Node × Text

/-- The two lengths by which a position is remembered. -/
def Position.key (p : Position) : Nat × Nat := (p.1.length, p.2.length)

/-- The positions that a position leads to, the shortest stretch first. -/
def Position.next : Position → List Position
  | ([], _) => []
  | (n :: ns, s) => (n.stops s).map (ns, ·)

/-- The positions that have been explored, by their keys. -/
abbrev Seen := Std.TreeSet (Nat × Nat) lexOrd.compare

/-- What a turn of the search does with the position on top of the stack. -/
inductive Turn where
  /-- It has been explored before and is dropped. -/
  | again (p : Position)
  /-- It is explored. -/
  | first (p : Position)
  deriving DecidableEq, Repr

namespace Turn

/-- The turn that a position takes. -/
def on (seen : Seen) (p : Position) : Turn :=
  -- Chain and rest only ever lose their fronts, so equal lengths mean one and the same position.
  if seen.contains p.key then again p else first p

/-- Whether the turn comes to the end of chain and candidate. -/
def isEnd : Turn → Bool
  | first ([], []) => true
  | _ => false

/-- The positions that the turn pushes. -/
def pushed : Turn → List Position
  | again _ => []
  | first p => p.next

/-- What has been explored after the turn. -/
def mark (seen : Seen) : Turn → Seen
  | again _ => seen
  | first p => seen.insert p.key

end Turn

/-- Explores the stack of positions until one is at the end of chain and candidate. `none` means that
the fuel ran out with positions left. -/
def run : Nat → List Position → Seen → Option Bool
  | _, [], _ => some false
  | 0, _ :: _, _ => none
  | fuel + 1, p :: stack, seen =>
    let turn := Turn.on seen p
    if turn.isEnd then some true else run fuel (turn.pushed ++ stack) (turn.mark seen)

/-- Steps that always suffice for a chain and a candidate of these lengths. -/
def stepBound (nodes chars : Nat) : Nat := 1 + nodes * ((chars + 1) * (chars + 1))

/-- Whether the chain of nodes takes the whole candidate. -/
def passes (ns : List Node) (s : Text) : Bool :=
  (run (stepBound ns.length s.length) [(ns, s)] ∅).getD false

end PathIgnore.Glob
