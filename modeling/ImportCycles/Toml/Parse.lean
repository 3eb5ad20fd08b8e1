import ImportCycles.Toml.Scalar

namespace ImportCycles

namespace Toml

/-- The text after blanks, line feeds and comments. -/
def skipSpace : Nat → List Char → Except Error (List Char)
  | 0, cs => .ok cs
  | fuel + 1, cs =>
    match cs.dropWhile fun c => isBlank c || c == '\n' with
    | '#' :: rest => do
      let rest ← skipComment ('#' :: rest)
      skipSpace fuel rest
    | rest => .ok rest

/-- Whether a key, or one that it extends, is among some keys. -/
def extendsOne (keys : List Key) (key : Key) : Bool :=
  keys.any (·.isPrefixOf key)

/-- Add an entry to an inline table. Values in one piece that came before are closed. -/
def addInline (closed : List Key) (table : Table) (key : Key) (value : Value) :
    Except Error Table :=
  if extendsOne closed key then .error .malformed
  else table.changeAt false (Table.addNew (key.getLast?.getD "") value) key.dropLast

/-- Whether a value is of one piece: an array or a table. -/
def Value.isCompound : Value → Bool
  | .array _ => true
  | .table _ => true
  | _ => false

mutual

def readValue : Nat → List Char → Except Error (Parsed Value)
  | 0, _ => .error .malformed
  | fuel + 1, cs =>
    match readString? cs with
    | some reading => do
      let (text, rest) ← reading
      return (.text text, rest)
    | none =>
      match cs with
      | 't' :: 'r' :: 'u' :: 'e' :: rest => .ok (.boolean true, rest)
      | 'f' :: 'a' :: 'l' :: 's' :: 'e' :: rest => .ok (.boolean false, rest)
      | '[' :: rest => do
        let (items, rest) ← readItems fuel rest
        return (.array items, rest)
      | '\x7b' :: rest =>
        match skipBlanks rest with
        | '\x7d' :: rest => .ok (.table [], rest)
        | rest => do
          let (table, rest) ← readEntries fuel [] [] rest
          return (.table table, rest)
      | cs =>
        match readDate? cs with
        | some reading => reading
        | none =>
          match skipTime? cs with
          | some rest => .ok (.other, rest)
          | none =>
            match readRadix? cs with
            | some reading => .ok reading
            | none =>
              match readDecimal? cs with
              | some reading => reading
              | none =>
                match readSpecial? cs with
                | some reading => .ok reading
                | none => .error .malformed

/-- The items of an array, from after the opening bracket or a comma. -/
def readItems : Nat → List Char → Except Error (Parsed (List Value))
  | 0, _ => .error .malformed
  | fuel + 1, cs => do
    match ← skipSpace cs.length cs with
    | ']' :: rest => return ([], rest)
    | rest =>
      let (item, rest) ← readValue fuel rest
      match ← skipSpace rest.length rest with
      | ']' :: rest => return ([item], rest)
      | ',' :: rest =>
        let (items, rest) ← readItems fuel rest
        return (item :: items, rest)
      | _ => .error .malformed

/-- The entries of an inline table, after those already read. -/
def readEntries : Nat → List Key → Table → List Char → Except Error (Parsed Table)
  | 0, _, _, _ => .error .malformed
  | fuel + 1, closed, table, cs => do
    let (key, value, rest) ← readPair fuel cs
    let table ← addInline closed table key value
    match skipBlanks rest with
    | '\x7d' :: rest => return (table, rest)
    | ',' :: rest =>
      readEntries fuel (if value.isCompound then key :: closed else closed) table (skipBlanks rest)
    | _ => .error .malformed

def readPair : Nat → List Char → Except Error (Key × Value × List Char)
  | 0, _ => .error .malformed
  | fuel + 1, cs => do
    let (key, rest) ← readKey (cs.length + 1) cs
    match rest with
    | '=' :: rest =>
      let (value, rest) ← readValue fuel (skipBlanks rest)
      return (key, value, rest)
    | _ => .error .malformed

end

/-- A document that is being read. -/
structure Draft where
  table : Table := []
  /-- The table that entries go to. -/
  header : Key := []
  /-- Tables that were declared, and may not be declared again. -/
  declared : List Key := []
  /-- Tables made by dotted keys, which count as declared from the next header on. -/
  pending : List Key := []
  /-- Values in one piece, below which nothing can be added. -/
  closed : List Key := []
  deriving Repr

namespace Draft

/-- The tables that a dotted key leads through. -/
def tablesOf (header : Key) (key : Key) : List Key :=
  (List.range key.length).drop 1 |>.map fun n => header ++ key.take n

def addPair (d : Draft) (key : Key) (value : Value) : Except Error Draft :=
  let through := tablesOf d.header key
  let parent := d.header ++ key.dropLast
  if through.any d.declared.contains || extendsOne d.closed parent then
    .error .malformed
  else do
    let table ← d.table.changeAt true (Table.addNew (key.getLast?.getD "") value) parent
    let closed := if value.isCompound then (d.header ++ key) :: d.closed else d.closed
    return { d with table, closed, pending := through ++ d.pending }

/-- Start another header: what was pending is declared. -/
def settle (d : Draft) : Draft :=
  { d with declared := d.pending ++ d.declared, pending := [] }

def openTable (d : Draft) (key : Key) : Except Error Draft :=
  if d.declared.contains key || extendsOne d.closed key then
    .error .malformed
  else do
    let table ← d.table.changeAt true .ok key
    return { d with table, header := key, declared := key :: d.declared }

/-- Declare another table of an array. What was declared below the last one is open again. -/
def openItem (d : Draft) (key : Key) : Except Error Draft :=
  if extendsOne d.closed key then
    .error .malformed
  else do
    let table ← d.table.changeAt true (Table.appendTable (key.getLast?.getD "")) key.dropLast
    return { d with
      table
      header := key
      declared := key :: d.declared.filter (!key.isPrefixOf ·)
      closed := d.closed.filter (!key.isPrefixOf ·) }

end Draft

/-- Read a header, from after its first bracket. -/
def readHeader (d : Draft) (cs : List Char) : Except Error (Draft × List Char) := do
  let d := d.settle
  match cs with
  | '[' :: rest =>
    let (key, rest) ← readKey (rest.length + 1) (skipBlanks rest)
    let d ← d.openItem key
    match rest with
    | ']' :: ']' :: rest => return (d, rest)
    | _ => .error .malformed
  | _ =>
    let (key, rest) ← readKey (cs.length + 1) (skipBlanks cs)
    let d ← d.openTable key
    match rest with
    | ']' :: rest => return (d, rest)
    | _ => .error .malformed

/-- Read one statement, or none where the line is empty. -/
def readStatement (d : Draft) (cs : List Char) : Except Error (Draft × List Char) :=
  match cs with
  | [] => .ok (d, [])
  | '\n' :: rest => .ok (d, '\n' :: rest)
  | '#' :: rest => .ok (d, '#' :: rest)
  | '[' :: rest => readHeader d rest
  | cs => do
    let (key, value, rest) ← readPair (2 * cs.length + 4) cs
    let d ← d.addPair key value
    return (d, rest)

/-- Read statements, each on a line of its own. -/
def readStatements : Nat → Draft → List Char → Except Error Draft
  | 0, _, _ => .error .malformed
  | fuel + 1, d, cs => do
    let (d, rest) ← readStatement d (skipBlanks cs)
    match ← skipComment (skipBlanks rest) with
    | [] => return d
    | '\n' :: rest => readStatements fuel d rest
    | _ => .error .malformed

def parse (text : List Char) : Except Error Table := do
  let draft ← readStatements (text.length + 1) {} text
  return draft.table

end Toml

end ImportCycles
