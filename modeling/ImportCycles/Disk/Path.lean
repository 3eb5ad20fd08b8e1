namespace ImportCycles

/-- A path. `root` is empty for a relative path, and one slash or two for an absolute one. -/
structure Path where
  root : String := ""
  parts : List String := []
  deriving Repr, DecidableEq

namespace Path

def segments : List Char → List (List Char)
  | [] => [[]]
  | c :: rest =>
    if c = '/' then
      [] :: segments rest
    else
      match segments rest with
      | [] => [[c]]
      | segment :: more => (c :: segment) :: more

/-- The names between slashes, without empty ones and single dots. -/
def names (cs : List Char) : List String :=
  ((segments cs).filter fun segment => segment ≠ [] ∧ segment ≠ ['.']).map String.ofList

/-- Read a path. Exactly two leading slashes are kept apart from one. -/
def ofString (s : String) : Path :=
  let slashes := (s.toList.takeWhile (· == '/')).length
  let root := if slashes = 0 then "" else if slashes = 2 then "//" else "/"
  { root, parts := names s.toList }

/-- The text of a path; the empty relative path is a dot. -/
def toString (p : Path) : String :=
  if p.root.isEmpty && p.parts.isEmpty then "." else p.root ++ "/".intercalate p.parts

/-- The last name, empty if there is none. -/
def name (p : Path) : String :=
  p.parts.getLast?.getD ""

def child (p : Path) (name : String) : Path :=
  { p with parts := p.parts ++ [name] }

def absolute (names : List String) : Path :=
  { root := "/", parts := names }

/-- The part of a file name from its last dot on. A dot at either end of the name starts none. -/
def suffixOf (name : String) : String :=
  let after := name.toList.reverse.takeWhile (· != '.')
  let before := name.toList.reverse.dropWhile (· != '.')
  if after.isEmpty || before.length ≤ 1 then "" else String.ofList ('.' :: after.reverse)

/-- The part of the last name from its last dot on. -/
def suffix (p : Path) : String :=
  suffixOf p.name

end Path

end ImportCycles
