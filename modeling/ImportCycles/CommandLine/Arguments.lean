namespace ImportCycles

namespace CommandLine

inductive Format where
  | text
  | json
  | flowchart
  deriving Repr, DecidableEq

def Format.keyword : Format → String
  | .text => "text"
  | .json => "json"
  | .flowchart => "mermaid"

def Format.ofKeyword? (word : String) : Option Format :=
  [Format.text, .json, .flowchart].find? (·.keyword == word)

/-- The orientations of a flowchart: left to right, top down in two spellings, and backwards. -/
def orientations : List String :=
  ["LR", "TD", "TB", "RL", "BT"]

structure Arguments where
  roots : List String := []
  file : Option String := none
  config : Option String := none
  output : Option String := none
  format : Format := .text
  orientation : String := "LR"
  fullGraph : Bool := false
  includeExt : Option (List String) := none
  excludeDir : Option (List String) := none
  maxDepth : Option Int := none
  jobs : Option Int := none
  strict : Bool := false
  failOnCycles : Bool := false
  verbose : Bool := false
  quiet : Bool := false
  deriving Repr, DecidableEq

inductive Switch where
  | help
  | file
  | config
  | output
  | format
  | orientation
  | fullGraph
  | includeExt
  | excludeDir
  | maxDepth
  | jobs
  | strict
  | failOnCycles
  | verbose
  | quiet
  deriving Repr, DecidableEq

/-- How many values a switch takes: none, exactly one, or as many as follow but at least one. -/
inductive Arity where
  | none
  | one
  | many
  deriving Repr, DecidableEq

namespace Switch

def arity : Switch → Arity
  | .file | .config | .output | .format | .orientation | .maxDepth | .jobs => .one
  | .includeExt | .excludeDir => .many
  | .help | .fullGraph | .strict | .failOnCycles | .verbose | .quiet => .none

def shortNames : List (Char × Switch) :=
  [('h', .help), ('f', .file), ('c', .config), ('o', .output), ('j', .jobs), ('v', .verbose),
    ('q', .quiet)]

/-- The long names, which start with two dashes. -/
def longNames : List (String × Switch) :=
  [("--help", .help), ("--file", .file), ("--config", .config), ("--output", .output),
    ("--format", .format), ("--orientation", .orientation), ("--full-graph", .fullGraph),
    ("--include-ext", .includeExt), ("--exclude-dir", .excludeDir), ("--max-depth", .maxDepth),
    ("--jobs", .jobs), ("--strict", .strict), ("--fail-on-cycles", .failOnCycles),
    ("--verbose", .verbose), ("--quiet", .quiet)]

def ofShort? (c : Char) : Option Switch :=
  shortNames.lookup c

/-- The switches with a long name that starts with a text. -/
def matching (start : List Char) : List Switch :=
  (longNames.filter fun (name, _) => start.isPrefixOf name.toList).map (·.2)

end Switch

end CommandLine

end ImportCycles
