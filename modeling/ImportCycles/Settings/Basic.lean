import ImportCycles.Disk.Search
import ImportCycles.Settings.Problem
import ImportCycles.Settings.Value

namespace ImportCycles

/-- The settings of a scan. Extensions and excluded directories are sets: they are kept sorted, each
    once, so that equal sets are equal lists. -/
structure Settings where
  roots : List String := []
  filter : SearchFilter := {}
  allowCycles : Bool := true
  maxWorkers : Option Int := none
  deriving Repr, DecidableEq

namespace Settings

/-- An extension in lower case, with a dot in front. -/
def normalizeExtension (extension : String) : String :=
  Text.lower (if extension.toList.head? = some '.' then extension else "." ++ extension)

/-- Extensions as a set, each normalised. -/
def normalizeExtensions (extensions : List String) : List String :=
  sortDistinct (extensions.map normalizeExtension)

def knownNames : List String :=
  ["roots", "include_ext", "exclude_dirs", "max_depth", "allow_cycles", "max_workers"]

/-- The value under a name. Of several values under one name the last counts. -/
def valueOf? (entries : List (String × Value)) (name : String) : Option Value :=
  entries.reverse.lookup name

/-- The names that a setting lists, if it is given. -/
def namesOf (entries : List (String × Value)) (name : String) (default : List String) :
    Except Problem (List String) :=
  match valueOf? entries name with
  | none => .ok default
  | some value =>
    match value.names? with
    | some names => .ok names
    | none => .error (.notNames name)

/-- The bound that a setting gives: none, or an integer that is not below a minimum. -/
def boundOf (entries : List (String × Value)) (name : String) (minimum : Int) :
    Except Problem (Option Int) :=
  match valueOf? entries name with
  | none => .ok none
  | some .null => .ok none
  | some (.integer n) => if n < minimum then .error (.notInteger name minimum) else .ok (some n)
  | some _ => .error (.notInteger name minimum)

def flagOf (entries : List (String × Value)) (name : String) (default : Bool) :
    Except Problem Bool :=
  match valueOf? entries name with
  | none => .ok default
  | some (.boolean value) => .ok value
  | some _ => .error (.notBoolean name)

/-- Settings from named values. Unknown names are reported before any value is looked at. -/
def ofEntries (entries : List (String × Value)) : Except Problem Settings :=
  let unknown := entries.map (·.1) |>.filter (!knownNames.contains ·)
  if !unknown.isEmpty then
    .error (.unknownSettings (sortDistinct unknown))
  else do
    let default : Settings := {}
    let roots ← namesOf entries "roots" default.roots
    let extensions ← namesOf entries "include_ext" default.filter.extensions
    let excludedDirs ← namesOf entries "exclude_dirs" default.filter.excludedDirs
    let maxDepth ← boundOf entries "max_depth" 0
    let maxWorkers ← boundOf entries "max_workers" 1
    let allowCycles ← flagOf entries "allow_cycles" default.allowCycles
    return {
      roots
      filter := {
        extensions := normalizeExtensions extensions
        excludedDirs := sortDistinct excludedDirs
        maxDepth }
      allowCycles
      maxWorkers }

/-- Settings from a mapping, whose names must all be texts. -/
def ofMapping (entries : List (Option String × Value)) : Except Failure Settings :=
  match entries.mapM fun (name, value) => name.map (·, value) with
  | none => .error (.breach .nameNotText)
  | some entries =>
    match ofEntries entries with
    | .ok settings => .ok settings
    | .error problem => .error (.problem problem)

end Settings

end ImportCycles
