import ImportCycles.Graph.Walk
import ImportCycles.Graph.Findings

namespace ImportCycles

/-- Edges in both directions, with what audits found among them. The dependencies say what a unit
    needs, the visibility says who needs it. A graph that does not allow cycles refuses an edge that
    would close one. -/
structure Graph where
  allowCycles : Bool := false
  dependencies : Table := {}
  visibility : Table := {}
  findings : Findings := {}
  deriving Repr

namespace Graph

/-- Why an edge was refused. -/
inductive Refusal where
  | emptyName
  | closesCycle (cycle : List String)
  deriving Repr, DecidableEq

/-- The cycle that the refused edge would close, as a route. -/
def Refusal.trace : Refusal → Option String
  | .emptyName => none
  | .closesCycle cycle => some (Route.join cycle)

def Refusal.message : Refusal → String
  | .emptyName => "empty depender or dependent"
  | .closesCycle cycle => "dependency cycle detected: " ++ Route.join cycle

def empty (allowCycles : Bool) : Graph :=
  { allowCycles }

/-- The graph with an edge in both tables. -/
def connect (g : Graph) (depender dependent : String) : Graph :=
  { g with
    dependencies := g.dependencies.insert depender dependent
    visibility := g.visibility.insert dependent depender }

/-- The graph with an edge taken out of both tables. -/
def disconnect (g : Graph) (depender dependent : String) : Graph :=
  { g with
    dependencies := g.dependencies.erase depender dependent
    visibility := g.visibility.erase dependent depender }

def hasEdge (g : Graph) (depender dependent : String) : Bool :=
  (g.dependencies.row depender).contains dependent

/-- Add an edge. A strict graph stores a new edge first, walks from its depender, and takes it out
    again if the walk meets a cycle: the edge lies on it, since there was none before. -/
def add (g : Graph) (depender dependent : String) : Option Refusal × Graph :=
  if depender.isEmpty || dependent.isEmpty then
    (some .emptyName, g)
  else
    let connected := g.connect depender dependent
    if g.hasEdge depender dependent || g.allowCycles then
      (none, connected)
    else
      match Walk.firstCycle? connected.dependencies depender with
      | none => (none, connected)
      | some cycle => (some (.closesCycle cycle), connected.disconnect depender dependent)

/-- Add edges one after another. The refusals come with the positions of their edges. -/
def addAll (g : Graph) (edges : List (String × String)) : List (Nat × Refusal) × Graph :=
  edges.zipIdx.foldl
    (fun (refused, g) (edge, index) =>
      match g.add edge.1 edge.2 with
      | (none, next) => (refused, next)
      | (some refusal, next) => (refused ++ [(index, refusal)], next))
    ([], g)

/-- The units that `unit` depends on, in the order of their edges. -/
def dependents (g : Graph) (unit : String) : List String :=
  g.dependencies.row unit

/-- The units that depend on `unit`, in the order of their edges. -/
def dependers (g : Graph) (unit : String) : List String :=
  g.visibility.row unit

/-- The units with an outgoing edge, sorted. -/
def dependerUnits (g : Graph) : List String :=
  sortNames g.dependencies.keys

/-- Every unit at an end of some edge, sorted, each once. -/
def units (g : Graph) : List String :=
  sortDistinct (g.dependencies.keys ++ g.visibility.keys)

def size (g : Graph) : Nat :=
  g.units.length

def edgeCount (g : Graph) : Nat :=
  g.dependencies.size

/-- Whether `unit` is at an end of some edge. -/
def contains (g : Graph) (unit : String) : Bool :=
  g.dependencies.keys.contains unit || g.visibility.keys.contains unit

/-- All edges, sorted by depender; those of one depender in the order in which they came. -/
def edges (g : Graph) : List (String × String) :=
  (insertionSort (fun a b => decide (a.1 ≤ b.1)) g.dependencies.rows).flatMap
    fun (depender, dependents) => dependents.map (depender, ·)

/-- The units that audits found to close a cycle, sorted. -/
def knownCyclers (g : Graph) : List String :=
  sortNames g.findings.knownCyclers.items

/-- The routes of the cycles that audits recorded, sorted. -/
def cycles (g : Graph) : List String :=
  sortNames g.findings.traces.items

/-- A cycle within reach of `unit`, as a route. -/
def findCycle (g : Graph) (unit : String) : Option String :=
  (Walk.firstCycle? g.dependencies unit).map Route.join

def summary (g : Graph) : String :=
  let flag := if g.allowCycles then "True" else "False"
  "DependencyGraph(units=" ++ toString g.size ++ ", edges=" ++ toString g.edgeCount ++
    ", allow_cycles=" ++ flag ++ ", cycles=" ++ toString g.findings.traces.size ++ ")"

end Graph

end ImportCycles
