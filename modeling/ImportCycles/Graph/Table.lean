namespace ImportCycles

/-- Rows of names, each under its key, in the order in which the names were added. A row is never
    empty, so a key is present exactly while it has a name in its row. -/
structure Table where
  rows : List (String × List String) := []
  deriving Repr, DecidableEq

namespace Table

/-- The row of a key, empty if the key is absent. -/
def row (t : Table) (key : String) : List String :=
  (t.rows.lookup key).getD []

def keys (t : Table) : List String :=
  t.rows.map (·.1)

/-- The number of names in all rows. -/
def size (t : Table) : Nat :=
  (t.rows.flatMap (·.2)).length

/-- Add `value` at the end of the row of `key`, making the row if it is missing. -/
def extendRow (key value : String) : List (String × List String) → List (String × List String)
  | [] => [(key, [value])]
  | (k, values) :: rest =>
    if k = key then
      (k, if value ∈ values then values else values ++ [value]) :: rest
    else
      (k, values) :: extendRow key value rest

/-- Take `value` out of the row of `key`, and the row with it if it was the last name. -/
def shrinkRow (key value : String) : List (String × List String) → List (String × List String)
  | [] => []
  | (k, values) :: rest =>
    if k = key then
      match values.erase value with
      | [] => rest
      | left => (k, left) :: rest
    else
      (k, values) :: shrinkRow key value rest

/-- The table with `value` in the row of `key`; nothing changes if it is there already. -/
def insert (t : Table) (key value : String) : Table :=
  { rows := extendRow key value t.rows }

/-- The table without `value` in the row of `key`. -/
def erase (t : Table) (key value : String) : Table :=
  { rows := shrinkRow key value t.rows }

end Table

end ImportCycles
