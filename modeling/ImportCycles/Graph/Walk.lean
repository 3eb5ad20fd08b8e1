import ImportCycles.Sorted
import ImportCycles.Graph.Table

namespace ImportCycles

namespace Walk

/-- What ends a walk: the first cycle, or only the last frame. -/
inductive Mode where
  | firstCycle
  | everyCycle
  deriving Repr, DecidableEq

/-- Where a walk stands. `path` is the current path, newest unit first; `seen` holds its units,
    `finished` those the walk has backed out of, `known` those it does not enter at all. Each frame
    holds the names still to be tried below one unit of the path. The start has a frame too, but
    joins the path only when an edge leads back to it. -/
structure State where
  path : List String := []
  seen : List String := []
  finished : List String := []
  frames : List (List String)
  known : List String := []
  cycles : List (List String) := []
  deriving Repr, DecidableEq

/-- The cycle that an edge back to `unit` closes: from `unit` along the path and back. -/
def closing (unit : String) (path : List String) : List String :=
  unit :: (path.takeWhile (· != unit)).reverse ++ [unit]

/-- The names below `unit`, as a frame. -/
def frameOf (edges : Table) (unit : String) : List String :=
  sortNames (edges.row unit)

/-- The walk before its first step. -/
def start (edges : Table) (known : List String) (origin : String) : State :=
  { frames := [frameOf edges origin], known }

/-- Back out of the newest frame. Its unit, if it has one, leaves the path and is finished. -/
def backOut (s : State) (outer : List (List String)) : State :=
  match s.path with
  | [] => { s with frames := outer }
  | unit :: path =>
    { s with
      path
      seen := s.seen.erase unit
      finished := unit :: s.finished
      frames := outer }

/-- Try `unit`, the next name of the newest frame. A known unit is passed over, a unit on the path
    closes a cycle, and with `prune` a finished unit is passed over as well. -/
def visit (prune : Bool) (edges : Table) (s : State) (unit : String) (frames : List (List String)) :
    State :=
  if unit ∈ s.known then
    { s with frames }
  else if unit ∈ s.seen then
    { s with
      frames
      known := unit :: s.known
      cycles := s.cycles ++ [closing unit s.path] }
  else if prune && s.finished.contains unit then
    { s with frames }
  else
    { s with
      path := unit :: s.path
      seen := unit :: s.seen
      frames := frameOf edges unit :: frames }

/-- One step of the walk, or nothing when it has ended. -/
def step (mode : Mode) (prune : Bool) (edges : Table) (s : State) : Option State :=
  if mode = .firstCycle ∧ s.cycles ≠ [] then
    none
  else
    match s.frames with
    | [] => none
    | [] :: outer => some (backOut s outer)
    | (unit :: rest) :: outer => some (visit prune edges s unit (rest :: outer))

def run (mode : Mode) (prune : Bool) (edges : Table) : Nat → State → State
  | 0, s => s
  | n + 1, s =>
    match step mode prune edges s with
    | none => s
    | some next => run mode prune edges n next

/-- Enough steps for any pruned walk: each unit is entered at most once, so no edge is tried twice
    except those of the start, and there is one more frame than units entered. -/
def bound (edges : Table) : Nat :=
  3 * edges.size + 2

/-- The whole walk from `origin`, passing over the `known` units. -/
def explore (mode : Mode) (edges : Table) (known : List String) (origin : String) : State :=
  run mode true edges (bound edges) (start edges known origin)

/-- The first cycle met on a walk from `origin`. -/
def firstCycle? (edges : Table) (origin : String) : Option (List String) :=
  (explore .firstCycle edges [] origin).cycles.head?

/-- Every cycle met on a walk from `origin`, where each unit that closes one is known from then on.
    -/
def cyclesFrom (edges : Table) (known : List String) (origin : String) : List (List String) :=
  (explore .everyCycle edges known origin).cycles

end Walk

end ImportCycles
