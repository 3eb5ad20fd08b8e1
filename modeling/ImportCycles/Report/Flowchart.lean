import ImportCycles.Graph.Basic

namespace ImportCycles

namespace Report

/-- The steps along the given routes, sorted, each once. -/
def cycleEdges (cycles : List String) : List (String × String) :=
  sortPairs (cycles.flatMap fun trace =>
    let units := Route.split trace
    units.zip units.tail).eraseDups

/-- The ends of edges, sorted, each once. -/
def endpoints (edges : List (String × String)) : List String :=
  sortDistinct (edges.flatMap fun (depender, dependent) => [depender, dependent])

def isIdChar (c : Char) : Bool :=
  c.isAlphanum || c == '_'

/-- A name as an identifier: separators become underscores and all else that is not allowed is left
    out. An identifier starts with a letter. -/
def sanitize (name : String) : String :=
  let chars := (name.toList.map fun c =>
    if ['/', '\\', '.', '-', '$', '*'].contains c then '_' else c).filter isIdChar
  match chars with
  | [] => "unknown"
  | c :: _ => if c.isAlpha then String.ofList chars else "n_" ++ String.ofList chars

/-- The first of `base_2`, `base_3`, and so on that is not used, from a given number. -/
def freshFrom (used : List String) (base : String) : Nat → Nat → String
  | 0, number => base ++ "_" ++ toString number
  | tries + 1, number =>
    let candidate := base ++ "_" ++ toString number
    if used.contains candidate then freshFrom used base tries (number + 1) else candidate

/-- An identifier that is not used. Of one more candidate than there are used ones, one is free. -/
def freshId (used : List String) (base : String) : String :=
  if used.contains base then freshFrom used base used.length 2 else base

/-- An identifier for each name, in order. -/
def assignIds (names : List String) : List (String × String) :=
  (names.foldl
    (fun (ids, used) name =>
      let id := freshId used (sanitize name)
      (ids ++ [(name, id)], id :: used))
    ([], [])).1

def idOf (ids : List (String × String)) (name : String) : String :=
  (ids.lookup name).getD ""

def nodeLines (ids : List (String × String)) : List String :=
  ids.map fun (name, id) => "    " ++ id ++ "[\"" ++ name ++ "\"]"

def linkLines (ids : List (String × String)) (edges : List (String × String)) : List String :=
  edges.map fun (depender, dependent) =>
    "    " ++ idOf ids depender ++ " --> " ++ idOf ids dependent

/-- The positions of the links that are steps of a cycle. -/
def highlighted (edges marked : List (String × String)) : List Nat :=
  (edges.zipIdx.filter fun (edge, _) => marked.contains edge).map (·.2)

/-- The lines that colour the cycles, none if no link is a step of one. -/
def styleLines (ids : List (String × String)) (edges marked : List (String × String)) :
    List String :=
  let links := highlighted edges marked
  if links.isEmpty then
    []
  else
    let nodes := (endpoints marked).filter fun name => (ids.map (·.1)).contains name
    ["", "    %% Cycle edges",
      "    linkStyle " ++ ",".intercalate (links.map toString) ++
        " stroke:#ff0000,stroke-width:2px"] ++
    nodes.map fun name => "    style " ++ idOf ids name ++ " stroke:#ff0000"

/-- The chart of the cycles alone, or of the whole graph. The orientation is a word such as `LR`. -/
def flowchart (g : Graph) (cycles : List String) (orientation : String) (onlyCycles : Bool) :
    String :=
  let marked := cycleEdges cycles
  let edges := if onlyCycles then marked else g.edges
  let ids := assignIds (endpoints edges)
  "\n".intercalate
    (["flowchart " ++ orientation] ++ nodeLines ids ++ (if edges.isEmpty then [] else [""]) ++
      linkLines ids edges ++ styleLines ids edges marked)

end Report

end ImportCycles
