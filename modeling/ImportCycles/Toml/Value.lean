namespace ImportCycles

namespace Toml

/-- A TOML value. Fractions, dates and times are not told apart. -/
inductive Value where
  | text (value : String)
  | integer (value : Int)
  | boolean (value : Bool)
  | array (items : List Value)
  | table (entries : List (String × Value))
  | other
  deriving Repr

/-- A table: its entries in the order in which they were written, each key once. -/
abbrev Table := List (String × Value)

/-- Why a text has no TOML value. -/
inductive Error where
  /-- The text is not TOML. -/
  | malformed
  /-- The text is TOML but holds a number with too many digits. -/
  | impossibleValue
  deriving Repr, DecidableEq

/-- A key: the parts between its dots. -/
abbrev Key := List String

/-- Put a value under a name, in its old position if there is one. -/
def Table.set (name : String) (value : Value) : Table → Table
  | [] => [(name, value)]
  | (key, old) :: rest =>
    if key = name then (key, value) :: rest else (key, old) :: Table.set name value rest

/-- Change the table behind a key. Tables that are missing on the way are made. Through an array of
    tables the way leads to its last table, if `intoArrays` allows that. -/
def Table.changeAt (intoArrays : Bool) (change : Table → Except Error Table) (table : Table) :
    Key → Except Error Table
  | [] => change table
  | name :: rest =>
    match table.lookup name with
    | none => return table.set name (.table (← Table.changeAt intoArrays change [] rest))
    | some (.table inner) =>
      return table.set name (.table (← Table.changeAt intoArrays change inner rest))
    | some (.array items) =>
      match intoArrays, items.getLast? with
      | true, some (.table inner) => do
        let changed ← Table.changeAt intoArrays change inner rest
        return table.set name (.array (items.dropLast ++ [.table changed]))
      | _, _ => .error .malformed
    | some _ => .error .malformed

def Table.addNew (name : String) (value : Value) (table : Table) : Except Error Table :=
  if (table.lookup name).isSome then .error .malformed else .ok (table ++ [(name, value)])

/-- Add an empty table at the end of the array of tables under a name. -/
def Table.appendTable (name : String) (table : Table) : Except Error Table :=
  match table.lookup name with
  | none => .ok (table ++ [(name, .array [.table []])])
  | some (.array items) => .ok (table.set name (.array (items ++ [.table []])))
  | some _ => .error .malformed

end Toml

end ImportCycles
