import ImportCycles.Disk.Basic

namespace ImportCycles

/-- Replace the entry of a name, or add it at the end. -/
def setEntry (name : String) (node : Node) : List (String × Node) → List (String × Node)
  | [] => [(name, node)]
  | (key, old) :: rest =>
    if key = name then (key, node) :: rest else (key, old) :: setEntry name node rest

namespace Node

/-- The tree with `new` at a place. Directories that are missing on the way are made, and what is
    no directory gives way to one. -/
def put (node : Node) (place : List String) (new : Node) : Node :=
  match place with
  | [] => new
  | name :: rest =>
    let entries := match node with
      | .dir entries => entries
      | _ => []
    .dir (setEntry name (put ((node.entry? name).getD (.dir [])) rest new) entries)

end Node

namespace Disk

/-- The disk with `new` at a place. -/
def put (d : Disk) (place : List String) (new : Node) : Disk :=
  { d with top := d.top.put place new }

/-- Write a file through a path. The file may be new, its directory may not. -/
def write (d : Disk) (p : Path) (bytes : List UInt8) : Except Fault Disk :=
  match d.locate p with
  | .found place _ =>
    match d.top.at? place with
    | some (.file _) => .ok (d.put place (.file bytes))
    | _ => .error .isDirectory
  | .absent place name => .ok (d.put (place ++ [name]) (.file bytes))
  | .fault reason => .error reason

end Disk

end ImportCycles
