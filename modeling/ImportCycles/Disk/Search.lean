import ImportCycles.Disk.Basic
import ImportCycles.Sorted
import ImportCycles.Text.Lowercase

namespace ImportCycles

/-- Which files a search selects and which directories it enters. -/
structure SearchFilter where
  extensions : List String := [".java"]
  excludedDirs : List String :=
    [".git", ".gradle", ".hg", ".idea", ".mvn", ".svn", "bin", "build", "out", "target"]
  maxDepth : Option Int := none
  deriving Repr, DecidableEq

namespace SearchFilter

/-- Whether a directory name ends with a pattern that starts with a star. The stars in front are
    not part of the ending. -/
def matchesPattern (pattern name : String) : Bool :=
  pattern.toList.head? == some '*' &&
    (pattern.toList.dropWhile (· == '*')).isSuffixOf name.toList

/-- Whether a directory of this name is left out. -/
def excludes (f : SearchFilter) (name : String) : Bool :=
  f.excludedDirs.contains name || f.excludedDirs.any (matchesPattern · name)

def selects (f : SearchFilter) (name : String) : Bool :=
  f.extensions.contains (Text.lower (Path.suffixOf name))

/-- Whether directories at this depth are left unread. -/
def stopsAt (f : SearchFilter) (depth : Nat) : Bool :=
  match f.maxDepth with
  | none => false
  | some bound => bound < (depth : Int)

end SearchFilter

namespace Disk

/-- What a search meets: a file, or an entry whose nature cannot be told. Both are given by the
    names on the way to them. -/
inductive Sighting where
  | file (names : List String)
  | unreadable (names : List String)
  deriving Repr, DecidableEq

/-- Where a search stands: how deep, at which place, and through which names. -/
structure Position where
  depth : Nat := 0
  place : List String
  names : List String
  deriving Repr, DecidableEq

def Position.enter (pos : Position) (name : String) (place : List String) : Position :=
  { depth := pos.depth + 1, place, names := pos.names ++ [name] }

/-- The sightings at a file: the file itself if it is wanted. -/
def sightFile (f : SearchFilter) (pos : Position) (name : String) : List Sighting :=
  if f.selects name then [.file (pos.names ++ [name])] else []

mutual

/-- The sightings below a directory, entry by entry in the order of their names. -/
def sightDir (f : SearchFilter) (onLink : Position → String → List Sighting) (pos : Position) :
    Node → List Sighting
  | .dir entries =>
    if f.stopsAt pos.depth then
      []
    else
      (insertionSort (fun a b => decide (a.1 ≤ b.1)) (sightEntries f onLink pos entries)).flatMap
        (·.2)
  | .file _ => []
  | .link _ => []

def sightEntries (f : SearchFilter) (onLink : Position → String → List Sighting) (pos : Position) :
    List (String × Node) → List (String × List Sighting)
  | [] => []
  | (name, node) :: rest =>
    let sightings :=
      if node.isDir then
        if f.excludes name then []
        else sightDir f onLink (pos.enter name (pos.place ++ [name])) node
      else if node.isFile then
        sightFile f pos name
      else
        onLink pos name
    (name, sightings) :: sightEntries f onLink pos rest

end

/-- The sightings below a directory, where at most `hops` links lie one behind another and `links`
    more may be followed. So the links that a path may have also bound the search in a tree whose
    links run in circles. -/
def sightings (top : Node) (f : SearchFilter) (hops links : Nat) (pos : Position) (node : Node) :
    List Sighting :=
  match hops with
  | 0 => sightDir f (fun _ _ => []) pos node
  | hops + 1 =>
    let onLink := fun (pos : Position) name =>
      match follow top links pos.place [name] with
      | .found place links =>
        match top.at? place with
        | some (.file _) => sightFile f pos name
        | some node =>
          if f.excludes name then [] else sightings top f hops links (pos.enter name place) node
        | none => []
      | .fault .nameTooLong => [.unreadable (pos.names ++ [name])]
      | _ => []
    sightDir f onLink pos node

/-- Why a root cannot be searched. -/
inductive SearchFault where
  | noSuchDirectory
  | notADirectory
  | nameTooLong (path : Path)
  deriving Repr, DecidableEq

def SearchFault.reason : SearchFault → String
  | .noSuchDirectory => "no such directory"
  | .notADirectory => "not a directory"
  | .nameTooLong path => Fault.nameTooLong.message path

/-- The paths seen, unless the search met an unreadable entry. -/
def filesSeen : List Sighting → Except SearchFault (List Path)
  | [] => .ok []
  | .unreadable names :: _ => .error (.nameTooLong (Path.absolute names))
  | .file names :: rest => (filesSeen rest).map (Path.absolute names :: ·)

/-- The files below a root, in the order of the search. -/
def files (d : Disk) (f : SearchFilter) (root : Path) : Except SearchFault (List Path) :=
  match d.find root with
  | .ok (place, .dir entries) =>
    filesSeen (sightings d.top f maxLinks maxLinks { place, names := place } (.dir entries))
  | .ok _ => .error .notADirectory
  | .error .nameTooLong => .error (.nameTooLong root)
  | .error _ => .error .noSuchDirectory

end Disk

end ImportCycles
