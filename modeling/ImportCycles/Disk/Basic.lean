import ImportCycles.Disk.Path
import ImportCycles.Text.Quoted

namespace ImportCycles

/-- What a name in a directory stands for. -/
inductive Node where
  | file (bytes : List UInt8)
  | dir (entries : List (String × Node))
  | link (target : String)
  deriving Repr

/-- A tree and the place of the working directory. A place is the list of names from the top of the
    tree to a node, with no link on the way. -/
structure Disk where
  top : Node := .dir []
  workingDirectory : List String := []
  deriving Repr

/-- Why a path leads nowhere, or not to what was asked for. -/
inductive Fault where
  | missing
  | notDirectory
  | isDirectory
  | tooManyLinks
  | nameTooLong
  | embeddedNul
  deriving Repr, DecidableEq

/-- A fault of the system in its words, which name the path. A path with a NUL does not get as far
    as the system. -/
def Fault.message (fault : Fault) (p : Path) : String :=
  let told := fun reason => reason ++ ": " ++ Text.quoted p.toString
  match fault with
  | .missing => told "[Errno 2] No such file or directory"
  | .notDirectory => told "[Errno 20] Not a directory"
  | .isDirectory => told "[Errno 21] Is a directory"
  | .nameTooLong => told "[Errno 36] File name too long"
  | .tooManyLinks => told "[Errno 40] Too many levels of symbolic links"
  | .embeddedNul => "embedded null byte"

namespace Node

def entry? (node : Node) (name : String) : Option Node :=
  match node with
  | .dir entries => entries.lookup name
  | _ => none

def at? (node : Node) : List String → Option Node
  | [] => some node
  | name :: rest =>
    match node.entry? name with
    | some child => child.at? rest
    | none => none

def isDir : Node → Bool
  | .dir _ => true
  | _ => false

def isFile : Node → Bool
  | .file _ => true
  | _ => false

end Node

namespace Disk

/-- The most bytes that a name in a directory may have. A system also limits the bytes of a whole
    path; that limit is left out here. -/
def maxNameBytes : Nat := 255

/-- The most links that are followed on the way to one node. -/
def maxLinks : Nat := 40

/-- Where a path of names leads without following a link: to a place, to a link with names left
    after it, to a missing entry with names left after it, or to a fault. -/
inductive Advance where
  | arrived (place : List String)
  | link (place : List String) (target : String) (rest : List String)
  | missing (place : List String) (name : String) (rest : List String)
  | fault (reason : Fault)
  deriving Repr, DecidableEq

/-- Follow names from a place up to the first link. A double dot leads up, and stays at the top. -/
def advance (top : Node) (place : List String) : List String → Advance
  | [] => .arrived place
  | name :: rest =>
    match top.at? place with
    | some (.dir entries) =>
      if name = "." then
        advance top place rest
      else if name = ".." then
        advance top place.dropLast rest
      else if maxNameBytes < name.utf8ByteSize then
        .fault .nameTooLong
      else
        match entries.lookup name with
        | none => .missing place name rest
        | some (.link target) => .link place target rest
        | some _ => advance top (place ++ [name]) rest
    | _ => .fault .notDirectory

/-- Where a path leads in the end. `links` is how many more links may be followed. -/
inductive Target where
  | found (place : List String) (links : Nat)
  | absent (place : List String) (name : String)
  | fault (reason : Fault)
  deriving Repr, DecidableEq

/-- The names of a link's target. A slash at the end asks for a directory, as a dot does. -/
def targetNames (target : String) : List String :=
  let names := ((Path.segments target.toList).filter (· ≠ [])).map String.ofList
  if target.toList.getLast? = some '/' then names ++ ["."] else names

/-- Follow names from a place, and each link on the way. -/
def follow (top : Node) (links : Nat) (place names : List String) : Target :=
  match advance top place names with
  | .arrived place => .found place links
  | .missing place name [] => .absent place name
  | .missing .. => .fault .missing
  | .fault reason => .fault reason
  | .link place target rest =>
    match links with
    | 0 => .fault .tooManyLinks
    | links + 1 =>
      let origin := if target.toList.head? = some '/' then [] else place
      follow top links origin (targetNames target ++ rest)

/-- Where a path leads from the working directory. -/
def locate (d : Disk) (p : Path) : Target :=
  if p.parts.any (·.toList.contains (Char.ofNat 0)) then
    .fault .embeddedNul
  else
    follow d.top maxLinks (if p.root.isEmpty then d.workingDirectory else []) p.parts

/-- The node that a path leads to. -/
def find (d : Disk) (p : Path) : Except Fault (List String × Node) :=
  match d.locate p with
  | .found place _ =>
    match d.top.at? place with
    | some node => .ok (place, node)
    | none => .error .missing
  | .absent .. => .error .missing
  | .fault reason => .error reason

/-- The bytes of the file that a path leads to. -/
def read (d : Disk) (p : Path) : Except Fault (List UInt8) :=
  match d.find p with
  | .ok (_, .file bytes) => .ok bytes
  | .ok _ => .error .isDirectory
  | .error reason => .error reason

/-- Whether a path leads to a file. A name that is too long is no answer. -/
def isFile (d : Disk) (p : Path) : Except Fault Bool :=
  match d.find p with
  | .ok (_, node) => .ok node.isFile
  | .error .nameTooLong => .error .nameTooLong
  | .error _ => .ok false

end Disk

end ImportCycles
