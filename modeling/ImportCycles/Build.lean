import ImportCycles.Disk.Search
import ImportCycles.Graph.Basic
import ImportCycles.Java.Source

namespace ImportCycles

namespace Build

structure RootFailure where
  root : String
  reason : String
  deriving Repr, DecidableEq

def RootFailure.message (f : RootFailure) : String :=
  f.root ++ ": " ++ f.reason

/-- The wording for all failing roots of a build. -/
def failureMessage (failures : List RootFailure) : String :=
  toString failures.length ++ " root(s) failed to scan: " ++
    "; ".intercalate (failures.map RootFailure.message)

/-- What is built: the graph, the number of files read, and the cycles that refused edges would
    have closed, as routes. -/
structure Result where
  graph : Graph
  filesScanned : Nat := 0
  rejected : List String := []
  deriving Repr

/-- What ends a build without a result: roots that fail, roots without a worker for them, or an edge
    that lacks a name. -/
inductive Stop where
  | failed (failures : List RootFailure)
  | noWorkers
  | emptyName
  deriving Repr, DecidableEq

/-- Add one edge. A refusal for closing a cycle is noted, and no other is expected. -/
def Result.addReference (r : Result) (unit reference : String) : Except Stop Result :=
  match r.graph.add unit reference with
  | (none, graph) => .ok { r with graph }
  | (some (.closesCycle cycle), graph) =>
    .ok { r with graph, rejected := r.rejected ++ [Route.join cycle] }
  | (some .emptyName, _) => .error .emptyName

/-- Add a scanned file: an edge to every name it imports but its own. A file without a name of its
    own counts but adds nothing. -/
def Result.addSource (r : Result) (source : Java.Source) : Except Stop Result :=
  let r := { r with filesScanned := r.filesScanned + 1 }
  if source.name.isEmpty then
    .ok r
  else
    (source.references.filter (· != source.name)).foldlM (·.addReference source.name ·) r

/-- The source in a file below a root. If the file cannot be read, the root fails. -/
def sourceIn (d : Disk) (root : String) (path : Path) : Except RootFailure Java.Source :=
  match d.read path with
  | .ok bytes => .ok (Java.scan path bytes)
  | .error fault => .error { root, reason := fault.message path }

def sourcesBelow (d : Disk) (f : SearchFilter) (root : String) :
    Except RootFailure (List Java.Source) :=
  match d.files f (Path.ofString root) with
  | .ok paths => paths.mapM (sourceIn d root)
  | .error fault =>
    let name := match fault with
      | .nameTooLong _ => root
      | _ => (Path.ofString root).toString
    .error { root := name, reason := fault.reason }

/-- Take in the sources of one root, or note its failure. -/
def addRoot (d : Disk) (f : SearchFilter) (sofar : List RootFailure × Result) (root : String) :
    Except Stop (List RootFailure × Result) :=
  match sourcesBelow d f root with
  | .ok sources => (sources.foldlM Result.addSource sofar.2).map (sofar.1, ·)
  | .error failure => .ok (sofar.1 ++ [failure], sofar.2)

/-- Build from the roots, in order. All are tried, and the build fails if one of them cannot be
    searched. Roots need workers; no number of them, or zero, stands for one for each root. -/
def run (d : Disk) (workers : Option Int) (allowCycles : Bool) (f : SearchFilter)
    (roots : List String) : Except Stop Result :=
  if !roots.isEmpty && workers.any (· < 0) then
    .error .noWorkers
  else
    match roots.foldlM (addRoot d f) ([], { graph := Graph.empty allowCycles }) with
    | .ok ([], result) => .ok result
    | .ok (failures, _) => .error (.failed failures)
    | .error stop => .error stop

end Build

end ImportCycles
