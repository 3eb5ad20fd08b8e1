import ImportCycles.Route

namespace ImportCycles

namespace Rotation

/-- A closed cycle without its repeated last name; any other list as it is. -/
def opened (units : List String) : List String :=
  if 1 < units.length && units.head? == units.getLast? then units.dropLast else units

/-- The least of `first` and the names after it. -/
def least (first : String) (others : List String) : String :=
  others.foldl (fun m u => if u < m then u else m) first

/-- The rotation of a cycle, opened, that starts at its least name. All its rotations share it. -/
def key (units : List String) : List String :=
  match opened units with
  | [] => []
  | first :: others =>
    let ring := first :: others
    let start := ring.idxOf (least first others)
    ring.drop start ++ ring.take start

def keyOfRoute (route : String) : List String :=
  key (Route.split route)

end Rotation

end ImportCycles
