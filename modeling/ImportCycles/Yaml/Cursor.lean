namespace ImportCycles

namespace Yaml

/-- A value that the YAML text allows to write down but that does not exist. -/
inductive Foreign where
  | impossibleValue
  | unknownWord
  | emptyNumber
  | malformedDate
  | dateNotText
  | tooLarge
  deriving Repr, DecidableEq

/-- Why a text holds no document. -/
inductive Error where
  | malformed
  | foreign (foreign : Foreign)
  deriving Repr, DecidableEq

def isBreak (c : Char) : Bool :=
  c == '\n' || c == '\r' || c.toNat == 0x85 || c.toNat == 0x2028 || c.toNat == 0x2029

/-- The character that may stand in front of a text to mark its encoding. -/
def byteOrderMark : Char := Char.ofNat 0xFEFF

def isAllowed (c : Char) : Bool :=
  let n := c.toNat
  n == 9 || n == 10 || n == 13 || (32 ≤ n && n ≤ 126) || n == 0x85 || (0xA0 ≤ n && n ≤ 0xD7FF) ||
    (0xE000 ≤ n && n ≤ 0xFFFD) || 0x10000 ≤ n

/-- Whether a word ends here: at a blank, a line break, or the end of the text. -/
def endsWord (c : Option Char) : Bool :=
  c.all fun c => c == ' ' || c == '\t' || isBreak c

def endsLine (c : Option Char) : Bool :=
  c.all isBreak

/-- Whether a space, a line break or the end of the text is here. -/
def endsPart (c : Option Char) : Bool :=
  c.all fun c => c == ' ' || isBreak c

/-- A place in a text: the text from there on, and the line and column. -/
structure Cursor where
  rest : List Char
  index : Nat := 0
  line : Nat := 0
  column : Nat := 0
  deriving Repr, DecidableEq

namespace Cursor

def peek (c : Cursor) : Option Char :=
  c.rest.head?

def peekAt (c : Cursor) (n : Nat) : Option Char :=
  c.rest[n]?

/-- The place after one character. A byte order mark takes no column. -/
def next (c : Cursor) : Cursor :=
  match c.rest with
  | [] => c
  | ch :: rest =>
    if isBreak ch && !(ch == '\r' && rest.head? == some '\n') then
      { rest, index := c.index + 1, line := c.line + 1, column := 0 }
    else if ch = byteOrderMark then
      { c with rest, index := c.index + 1 }
    else
      { c with rest, index := c.index + 1, column := c.column + 1 }

def skip (c : Cursor) : Nat → Cursor
  | 0 => c
  | n + 1 => c.next.skip n

/-- The characters of a class from here on, and the place after them. -/
def span (c : Cursor) (p : Char → Bool) : List Char × Cursor :=
  let text := c.rest.takeWhile p
  (text, c.skip text.length)

def skipWhile (c : Cursor) (p : Char → Bool) : Cursor :=
  (c.span p).2

def skipSpaces (c : Cursor) : Cursor :=
  c.skipWhile (· == ' ')

/-- The place after a comment, if one starts here. -/
def skipComment (c : Cursor) : Cursor :=
  if c.peek = some '#' then c.skipWhile (!isBreak ·) else c

/-- The line break at the cursor, and the place after it. All but the two separators count as a line
    feed. -/
def lineBreak? (c : Cursor) : Option (Char × Cursor) :=
  match c.rest with
  | '\r' :: '\n' :: _ => some ('\n', c.skip 2)
  | ch :: _ =>
    if ch.toNat = 0x2028 ∨ ch.toNat = 0x2029 then some (ch, c.next)
    else if isBreak ch then some ('\n', c.next)
    else none
  | [] => none

/-- The place after a line break, if one is here. -/
def skipBreak (c : Cursor) : Cursor :=
  match c.lineBreak? with
  | some (_, c) => c
  | none => c

/-- Whether a line of three marks is here, which starts or ends a document. -/
def atMarker (c : Cursor) (mark : Char) : Bool :=
  c.rest.take 3 == [mark, mark, mark] && endsWord (c.peekAt 3)

def atAnyMarker (c : Cursor) : Bool :=
  c.atMarker '-' || c.atMarker '.'

end Cursor

end Yaml

end ImportCycles
