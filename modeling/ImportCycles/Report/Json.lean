namespace ImportCycles

/-- The JSON values that reports are made of. Members keep their order. -/
inductive Json where
  | bool (value : Bool)
  | string (value : String)
  | array (items : List Json)
  | object (members : List (String × Json))
  deriving Repr

namespace Json

/-- A hexadecimal digit, in lower case. -/
def hexDigit (n : Nat) : Char :=
  if n < 10 then Char.ofNat (48 + n) else Char.ofNat (87 + n)

def unitEscape (n : Nat) : List Char :=
  ['\\', 'u', hexDigit (n / 4096 % 16), hexDigit (n / 256 % 16), hexDigit (n / 16 % 16),
    hexDigit (n % 16)]

/-- A character inside a string, in ASCII. Beyond the basic plane it takes a pair of surrogates. -/
def escape (c : Char) : List Char :=
  if c = '"' then ['\\', '"']
  else if c = '\\' then ['\\', '\\']
  else if c = '\n' then ['\\', 'n']
  else if c = '\r' then ['\\', 'r']
  else if c = '\t' then ['\\', 't']
  else if c.toNat = 8 then ['\\', 'b']
  else if c.toNat = 12 then ['\\', 'f']
  else if 32 ≤ c.toNat ∧ c.toNat < 127 then [c]
  else if c.toNat < 65536 then unitEscape c.toNat
  else
    let n := c.toNat - 65536
    unitEscape (55296 + n / 1024) ++ unitEscape (56320 + n % 1024)

def quoted (s : String) : List Char :=
  '"' :: s.toList.flatMap escape ++ ['"']

/-- How items are set apart: on one line, or on lines of their own at a given indentation. -/
inductive Layout where
  | line
  | lines (width : Nat)
  deriving Repr, DecidableEq

/-- The layout of an indentation width. None is one line; a negative width indents by nothing. -/
def Layout.ofIndent : Option Int → Layout
  | none => .line
  | some width => .lines width.toNat

/-- What stands before an item at a nesting depth. -/
def Layout.lineBreak (layout : Layout) (depth : Nat) : List Char :=
  match layout with
  | .line => []
  | .lines width => '\n' :: List.replicate (width * depth) ' '

/-- What stands between two items at a nesting depth. -/
def Layout.separator (layout : Layout) (depth : Nat) : List Char :=
  match layout with
  | .line => [',', ' ']
  | .lines _ => ',' :: layout.lineBreak depth

/-- Items in brackets; brackets without items stand together. -/
def enclose (layout : Layout) (depth : Nat) (opening closing : Char) (items : List (List Char)) :
    List Char :=
  if items.isEmpty then
    [opening, closing]
  else
    opening :: layout.lineBreak (depth + 1) ++
      (layout.separator (depth + 1)).intercalate items ++ layout.lineBreak depth ++ [closing]

mutual

def write (layout : Layout) (depth : Nat) : Json → List Char
  | .bool true => ['t', 'r', 'u', 'e']
  | .bool false => ['f', 'a', 'l', 's', 'e']
  | .string s => quoted s
  | .array items => enclose layout depth '[' ']' (writeItems layout (depth + 1) items)
  | .object members => enclose layout depth '{' '}' (writeMembers layout (depth + 1) members)

def writeItems (layout : Layout) (depth : Nat) : List Json → List (List Char)
  | [] => []
  | item :: rest => write layout depth item :: writeItems layout depth rest

def writeMembers (layout : Layout) (depth : Nat) : List (String × Json) → List (List Char)
  | [] => []
  | (key, value) :: rest =>
    (quoted key ++ [':', ' '] ++ write layout depth value) :: writeMembers layout depth rest

end

def render (layout : Layout) (value : Json) : String :=
  String.ofList (write layout 0 value)

end Json

end ImportCycles
