import ImportCycles.Yaml.Token

namespace ImportCycles

namespace Yaml

/-- A token that may be a key, by its number among the tokens and its place. When a colon follows it
    on the same line, the marks of a key, and of a mapping if one starts there, are put in front of
    it. A required one must be a key, since nothing else may stand at its column. -/
structure PossibleKey where
  number : Nat
  required : Bool
  index : Nat
  line : Nat
  column : Nat
  deriving Repr, DecidableEq

/-- The state of the lexer. `keys` holds at most one possible key for each depth of brackets. -/
structure Lexer where
  cursor : Cursor
  tokens : List Token := []
  depth : Nat := 0
  indent : Int := -1
  indents : List Int := []
  keyAllowed : Bool := true
  keys : List (Nat × PossibleKey) := []
  finished : Bool := false
  deriving Repr

namespace Lexer

def inFlow (l : Lexer) : Bool :=
  l.depth != 0

def push (l : Lexer) (token : Token) : Lexer :=
  { l with tokens := l.tokens ++ [token] }

/-- The lexer with one more token and further on in the text. -/
def emit (l : Lexer) (token : Token) (cursor : Cursor) : Lexer :=
  { l with tokens := l.tokens ++ [token], cursor }

/-- The lexer with a token put in at a number. -/
def pushAt (l : Lexer) (number : Nat) (token : Token) : Lexer :=
  { l with tokens := l.tokens.take number ++ token :: l.tokens.drop number }

/-- The most characters between the start of a key and its colon. -/
def maxKeyLength : Nat := 1024

/-- Forget the possible keys that are too far behind. A required one must not be among them. -/
def dropStale (l : Lexer) : Except Error Lexer :=
  let isStale := fun (_, key) =>
    key.line != l.cursor.line || maxKeyLength < l.cursor.index - key.index
  if (l.keys.filter isStale).any (·.2.required) then .error .malformed
  else .ok { l with keys := l.keys.filter (!isStale ·) }

/-- Forget the possible key at this depth. A required one must not be forgotten. -/
def dropKey (l : Lexer) : Except Error Lexer :=
  match l.keys.lookup l.depth with
  | none => .ok l
  | some key =>
    if key.required then .error .malformed
    else .ok { l with keys := l.keys.filter (·.1 != l.depth) }

/-- Remember the next token as a possible key, if a key may stand here. -/
def saveKey (l : Lexer) : Except Error Lexer :=
  let required := !l.inFlow && l.indent == (l.cursor.column : Int)
  if l.keyAllowed then do
    let l ← l.dropKey
    let key : PossibleKey :=
      { number := l.tokens.length, required, index := l.cursor.index, line := l.cursor.line,
        column := l.cursor.column }
    return { l with keys := (l.depth, key) :: l.keys }
  else
    .ok l

/-- Close the blocks that are indented by more than a column. -/
def unwind (column : Int) : List Int → Lexer → Lexer
  | [], l => l
  | outer :: rest, l =>
    if column < l.indent then
      unwind column rest { l.push .blockEnd with indent := outer, indents := rest }
    else
      l

/-- Close the blocks that end before a column, unless the lexer is inside brackets. -/
def closeBlocks (l : Lexer) (column : Int) : Lexer :=
  if l.inFlow then l else unwind column l.indents l

/-- Open a block at a column, if it is indented by more than the one around it, and tell whether it
    was opened. -/
def openBlock (l : Lexer) (column : Nat) : Bool × Lexer :=
  if l.indent < (column : Int) then
    (true, { l with indent := column, indents := l.indent :: l.indents })
  else
    (false, l)

/-- Skip blanks, comments and line breaks. After a line break outside brackets a key may stand. -/
def skipSpace : Nat → Lexer → Lexer
  | 0, l => l
  | fuel + 1, l =>
    let cursor := l.cursor.skipSpaces.skipComment
    match cursor.lineBreak? with
    | some (_, cursor) =>
      skipSpace fuel { l with cursor, keyAllowed := l.keyAllowed || !l.inFlow }
    | none => { l with cursor }

def readEnd (l : Lexer) : Except Error Lexer := do
  let l ← (l.closeBlocks (-1)).dropKey
  return { l.push .streamEnd with keyAllowed := false, keys := [], finished := true }

def readDirectiveToken (l : Lexer) : Except Error Lexer := do
  let l ← (l.closeBlocks (-1)).dropKey
  let (token, cursor) ← readDirective l.cursor
  return { l.emit token cursor with keyAllowed := false }

def readMarker (l : Lexer) (token : Token) : Except Error Lexer := do
  let l ← (l.closeBlocks (-1)).dropKey
  return { l.emit token (l.cursor.skip 3) with keyAllowed := false }

def readOpening (l : Lexer) (token : Token) : Except Error Lexer := do
  let l ← l.saveKey
  return { l.emit token l.cursor.next with depth := l.depth + 1, keyAllowed := true }

def readClosing (l : Lexer) (token : Token) : Except Error Lexer := do
  let l ← l.dropKey
  return { l.emit token l.cursor.next with depth := l.depth - 1, keyAllowed := false }

def readFlowEntry (l : Lexer) : Except Error Lexer := do
  let l ← { l with keyAllowed := true }.dropKey
  return l.emit .flowEntry l.cursor.next

/-- Open a block of a kind for an entry that starts here, if the entry may start here. -/
def openFor (l : Lexer) (start : Token) : Except Error Lexer :=
  if l.inFlow then
    .ok l
  else if !l.keyAllowed then
    .error .malformed
  else
    match l.openBlock l.cursor.column with
    | (true, l) => .ok (l.push start)
    | (false, l) => .ok l

def readBlockEntry (l : Lexer) : Except Error Lexer := do
  let l ← l.openFor .blockSequenceStart
  let l ← { l with keyAllowed := true }.dropKey
  return l.emit .blockEntry l.cursor.next

def readKeyMark (l : Lexer) : Except Error Lexer := do
  let l ← l.openFor .blockMappingStart
  let l ← { l with keyAllowed := !l.inFlow }.dropKey
  return l.emit .key l.cursor.next

/-- The colon before a value. What was a possible key at this depth is one now. -/
def readValueMark (l : Lexer) : Except Error Lexer :=
  match l.keys.lookup l.depth with
  | some key =>
    let l := { l with keys := l.keys.filter (·.1 != l.depth) }.pushAt key.number .key
    let l := if l.inFlow then l else
      match l.openBlock key.column with
      | (true, l) => l.pushAt key.number .blockMappingStart
      | (false, l) => l
    .ok { l.emit .value l.cursor.next with keyAllowed := false }
  | none => do
    let l ← l.openFor .blockMappingStart
    let l ← { l with keyAllowed := !l.inFlow }.dropKey
    return l.emit .value l.cursor.next

/-- A token that may be a key, read from its first character on. -/
def readKeyable (l : Lexer) (read : Cursor → Except Error (Parsed Token)) : Except Error Lexer := do
  let l ← l.saveKey
  let (token, cursor) ← read l.cursor
  return { l.emit token cursor with keyAllowed := false }

def readBlockScalar (l : Lexer) (folded : Bool) : Except Error Lexer := do
  let l ← { l with keyAllowed := true }.dropKey
  let (text, cursor) ← readBlock folded l.indent l.cursor.next
  return l.emit (.scalar (String.ofList text) false) cursor

/-- A plain scalar. A key may follow it only on a later line. -/
def readPlainScalar (l : Lexer) : Except Error Lexer := do
  let l ← l.saveKey
  let (text, broken, cursor) := readPlain l.inFlow l.indent (l.cursor.rest.length + 1) l.cursor
  return { l.emit (.scalar (String.ofList text) true) cursor with keyAllowed := broken }

/-- Whether a plain scalar can start with a character, given the one after it. -/
def startsPlain (l : Lexer) (ch : Char) (following : Option Char) : Bool :=
  let isIndicator :=
    ['-', '?', ':', ',', '[', ']', '\x7b', '\x7d', '#', '&', '*', '!', '|', '>', '\x27',
      '"', '%', '@', '\x60'].contains ch
  (!endsWord (some ch) && !isIndicator) ||
    (!endsWord following && (ch == '-' || (!l.inFlow && (ch == '?' || ch == ':'))))

def readQuotedToken (double : Bool) (c : Cursor) : Except Error (Parsed Token) := do
  let (text, c) ← readQuoted double (c.rest.length + 1) c.next
  return (.scalar (String.ofList text) false, c)

def readToken (l : Lexer) : Except Error Lexer :=
  match l.cursor.peek with
  | none => l.readEnd
  | some ch =>
    let following := l.cursor.peekAt 1
    if ch = '%' ∧ l.cursor.column = 0 then l.readDirectiveToken
    else if l.cursor.column = 0 ∧ l.cursor.atMarker '-' then l.readMarker .documentStart
    else if l.cursor.column = 0 ∧ l.cursor.atMarker '.' then l.readMarker .documentEnd
    else if ch = '[' then l.readOpening .flowSequenceStart
    else if ch = '\x7b' then l.readOpening .flowMappingStart
    else if ch = ']' then l.readClosing .flowSequenceEnd
    else if ch = '\x7d' then l.readClosing .flowMappingEnd
    else if ch = ',' then l.readFlowEntry
    else if ch = '-' ∧ endsWord following then l.readBlockEntry
    else if ch = '?' ∧ (l.inFlow ∨ endsWord following) then l.readKeyMark
    else if ch = ':' ∧ (l.inFlow ∨ endsWord following) then l.readValueMark
    else if ch = '*' then l.readKeyable fun c => do
      let (name, c) ← readName c.next
      return (.alias name, c)
    else if ch = '&' then l.readKeyable fun c => do
      let (name, c) ← readName c.next
      return (.anchor name, c)
    else if ch = '!' then l.readKeyable readTag
    else if ch = '|' ∧ !l.inFlow then l.readBlockScalar false
    else if ch = '>' ∧ !l.inFlow then l.readBlockScalar true
    else if ch = '\x27' then l.readKeyable (readQuotedToken false)
    else if ch = '"' then l.readKeyable (readQuotedToken true)
    else if l.startsPlain ch following then l.readPlainScalar
    else .error .malformed

/-- Move to the next token and read it. -/
def advance (l : Lexer) : Except Error Lexer := do
  let l := skipSpace (l.cursor.rest.length + 1) l
  let l ← l.dropStale
  readToken (l.closeBlocks l.cursor.column)

/-- Read tokens up to the end of the text, or to the first that cannot be read. -/
def run : Nat → Lexer → List Token
  | 0, l => l.tokens ++ [.broken .malformed]
  | fuel + 1, l =>
    if l.finished then
      l.tokens
    else
      match l.advance with
      | .ok next => run fuel next
      | .error error => l.tokens ++ [.broken error]

end Lexer

/-- The tokens of a text. A byte order mark in front of it does not count. -/
def tokens (text : List Char) : List Token :=
  if text.all isAllowed then
    let start : Cursor := { rest := text }
    let cursor := if start.peek = some byteOrderMark then start.next else start
    Lexer.run (text.length + 2) { cursor }
  else
    [.broken .malformed]

end Yaml

end ImportCycles
