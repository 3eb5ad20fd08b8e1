import ImportCycles.Settings.Basic
import ImportCycles.Settings.SourceList
import ImportCycles.Toml.Value

namespace ImportCycles

namespace Settings

/-- The name of the section for this program among those of all tools. -/
def sectionName : String := "depcycle"

/-- Why a text in one of the formats has no value: it is malformed, for a reason that the reader of
    the format gives, or the reader fails in another way. -/
inductive FormatFault where
  | malformed (reason : String)
  | breach (breach : Breach)
  deriving Repr, DecidableEq

/-- The readers of the two formats. What they read, and how, is up to them. -/
structure Formats where
  yaml : List Char → Except FormatFault Document
  toml : List Char → Except FormatFault Toml.Table

/-- The names of the files looked for, in order. -/
def defaultFiles : List String :=
  [".depcycle.yaml", ".depcycle.yml", "pyproject.toml"]

def Value.ofToml : Toml.Value → Value
  | .boolean value => .boolean value
  | .integer value => .integer value
  | .text value => .text value
  | .array items => .list (items.map fun
    | .text value => .text value
    | _ => .other)
  | .table _ => .other
  | .other => .other

/-- What a TOML document holds for this program: its section if there are tools, else the whole. -/
def documentOfToml (table : Toml.Table) : Except Breach Document :=
  let mapping := fun (table : Toml.Table) =>
    Document.mapping (table.map fun (name, value) => (some name, Value.ofToml value))
  match table.lookup "tool" with
  | none => .ok (mapping table)
  | some (.table tools) =>
    match tools.lookup sectionName with
    | none => .ok (.mapping [])
    | some (.table table) => .ok (mapping table)
    | some _ => .ok .other
  | some _ => .error .toolNotTable

/-- A fault in a file, as a failure of settings. -/
def FormatFault.failure (fault : FormatFault) (path : String) : Failure :=
  match fault with
  | .malformed reason => .problem (.unparsable path reason)
  | .breach found => .breach found

/-- What a text holds, in the format of a suffix. -/
def parseDocument (formats : Formats) (path suffix : String) (text : List Char) :
    Except Failure Document :=
  if suffix = ".yaml" ∨ suffix = ".yml" then
    match formats.yaml text with
    | .ok document => .ok document
    | .error fault => .error (fault.failure path)
  else if suffix = ".toml" then
    match formats.toml text with
    | .error fault => .error (fault.failure path)
    | .ok table =>
      match documentOfToml table with
      | .ok document => .ok document
      | .error breach => .error (.breach breach)
  else
    .error (.problem (.unsupportedFormat path))

def load (formats : Formats) (d : Disk) (p : Path) : Except Failure Settings := do
  let path := p.toString
  let text ← readTextOr (.unreadable path) d p
  match ← parseDocument formats path (Text.lower p.suffix) text with
  | .empty => ofMapping []
  | .mapping entries => ofMapping entries
  | .other => .error (.problem (.notMapping path))

/-- Whether some characters occur in a text one after another. -/
def occursIn (part : List Char) : List Char → Bool
  | [] => part.isEmpty
  | c :: rest => part.isPrefixOf (c :: rest) || occursIn part rest

/-- Whether a TOML document has a section for this program. What stands for the tools is searched in
    the way of its kind: a table by its names, a list by its items, a text by its parts. -/
def hasSection (table : Toml.Table) : Except Breach Bool :=
  match table.lookup "tool" with
  | none => .ok false
  | some (.table tools) => .ok (tools.lookup sectionName).isSome
  | some (.array items) =>
    .ok (items.any fun
      | .text value => value == sectionName
      | _ => false)
  | some (.text value) => .ok (occursIn sectionName.toList value.toList)
  | some _ => .error .toolNotSearchable

/-- Whether a file is TOML with a section for this program. A file that is none has none. -/
def fileHasSection (formats : Formats) (d : Disk) (p : Path) : Except Breach Bool :=
  match d.readText p with
  | .error _ => .ok false
  | .ok text =>
    match formats.toml text with
    | .ok table => hasSection table
    | .error (.malformed _) => .ok false
    | .error (.breach breach) => .error breach

/-- The first file of the given names that is there and counts. -/
def findAmong (formats : Formats) (d : Disk) (directory : Path) :
    List String → Except Failure (Option Path)
  | [] => .ok none
  | name :: rest =>
    let candidate := directory.child name
    match d.isFile candidate with
    | .error _ => .error (.breach .nameTooLong)
    | .ok false => findAmong formats d directory rest
    | .ok true =>
      if name = "pyproject.toml" then
        match fileHasSection formats d candidate with
        | .error breach => .error (.breach breach)
        | .ok true => .ok (some candidate)
        | .ok false => findAmong formats d directory rest
      else
        .ok (some candidate)

def find (formats : Formats) (d : Disk) (directory : Path) : Except Failure (Option Path) :=
  findAmong formats d directory defaultFiles

end Settings

end ImportCycles
