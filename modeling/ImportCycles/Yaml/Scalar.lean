import ImportCycles.Text.Digits
import ImportCycles.Text.Utf8
import ImportCycles.Yaml.Cursor

namespace ImportCycles

namespace Yaml

/-- What a reader gives: a result and the place after it. -/
abbrev Parsed (α : Type) := α × Cursor

/-- A line break and the blank lines after it, folded: a single line feed becomes a space. -/
def fold (lineBreak : Char) (blankLines : List Char) : List Char :=
  if lineBreak ≠ '\n' then lineBreak :: blankLines
  else if blankLines.isEmpty then [' ']
  else blankLines

def isBlank (c : Char) : Bool :=
  c == ' ' || c == '\t'

/-- The blank lines inside quotes. No document may start or end there. -/
def readQuotedBreaks : Nat → Cursor → Except Error (Parsed (List Char))
  | 0, _ => .error .malformed
  | fuel + 1, c =>
    if c.atAnyMarker then
      .error .malformed
    else
      let c := c.skipWhile isBlank
      match c.lineBreak? with
      | none => .ok ([], c)
      | some (b, c) => do
        let (breaks, c) ← readQuotedBreaks fuel c
        return (b :: breaks, c)

/-- What a letter after a backslash stands for. -/
def escapeOf? : Char → Option Nat
  | '0' => some 0
  | 'a' => some 7
  | 'b' => some 8
  | 't' => some 9
  | '\t' => some 9
  | 'n' => some 10
  | 'v' => some 11
  | 'f' => some 12
  | 'r' => some 13
  | 'e' => some 27
  | ' ' => some 32
  | '"' => some 34
  | '\\' => some 92
  | '/' => some 47
  | 'N' => some 0x85
  | '_' => some 0xA0
  | 'L' => some 0x2028
  | 'P' => some 0x2029
  | _ => none

/-- The number of hexadecimal digits after a letter that announces a code. -/
def codeLength? : Char → Option Nat
  | 'x' => some 2
  | 'u' => some 4
  | 'U' => some 8
  | _ => none

/-- The character of a code. A surrogate, which other readers keep, has no place in a text here and
    is replaced. -/
def charOfCode (code : Nat) : Except Error Char :=
  if 0x80000000 ≤ code then .error (.foreign .tooLarge)
  else if 0x110000 ≤ code then .error (.foreign .impossibleValue)
  else if code.isValidChar then .ok (Char.ofNat code)
  else .ok (Char.ofNat 0xFFFD)

/-- What a backslash stands for, from after it. -/
def readEscape (c : Cursor) : Except Error (Parsed (List Char)) :=
  match c.peek with
  | none => .error .malformed
  | some letter =>
    match escapeOf? letter, codeLength? letter with
    | some code, _ => .ok ([Char.ofNat code], c.next)
    | none, some length =>
      match Text.hexCode? length (c.next.rest.take length) with
      | none => .error .malformed
      | some code => do
        let ch ← charOfCode code
        return ([ch], c.next.skip length)
    | none, none =>
      match c.lineBreak? with
      | none => .error .malformed
      | some (_, c) => readQuotedBreaks (c.rest.length + 1) c

/-- Blanks inside quotes, and the line break and blank lines they lead to. -/
def readQuotedSpace (c : Cursor) : Except Error (Parsed (List Char)) :=
  let (blanks, c) := c.span isBlank
  match c.peek, c.lineBreak? with
  | none, _ => .error .malformed
  | some _, none => .ok (blanks, c)
  | some _, some (b, c) => do
    let (breaks, c) ← readQuotedBreaks (c.rest.length + 1) c
    return (fold b breaks, c)

/-- The rest of a quoted scalar, from after the opening quote. -/
def readQuoted (double : Bool) : Nat → Cursor → Except Error (Parsed (List Char))
  | 0, _ => .error .malformed
  | fuel + 1, c =>
    match c.peek with
    | none => .error .malformed
    | some ch =>
      let andThen := fun (text : List Char) (c : Cursor) => do
        let (more, c) ← readQuoted double fuel c
        return (text ++ more, c)
      if ch = '"' then
        if double then .ok ([], c.next) else andThen [ch] c.next
      else if ch = '\x27' then
        if double then andThen [ch] c.next
        else if c.peekAt 1 = some ch then andThen [ch] (c.skip 2)
        else .ok ([], c.next)
      else if double && ch == '\\' then do
        let (text, c) ← readEscape c.next
        andThen text c
      else if isBlank ch || isBreak ch then do
        let (text, c) ← readQuotedSpace c
        andThen text c
      else
        andThen [ch] c.next

/-- The characters that end a plain scalar inside brackets. -/
def isFlowMark (c : Char) : Bool :=
  c == ',' || c == '[' || c == ']' || c == '\x7b' || c == '\x7d'

/-- Whether a plain word ends at this character, before the next one. -/
def endsPlain (inFlow : Bool) (ch : Char) (following : Option Char) : Bool :=
  endsWord (some ch) ||
    (ch == ':' && (endsWord following || (inFlow && following.any isFlowMark))) ||
    (inFlow && (isFlowMark ch || ch == '?'))

/-- The length of the plain word that starts here. -/
def plainLength (inFlow : Bool) : List Char → Nat
  | [] => 0
  | ch :: rest => if endsPlain inFlow ch rest.head? then 0 else plainLength inFlow rest + 1

/-- The blank lines after a line break in a plain scalar, or nothing where a document ends. -/
def plainBreaks : Nat → Cursor → Option (List Char) × Cursor
  | 0, c => (some [], c)
  | fuel + 1, c =>
    if c.peek = some ' ' then
      plainBreaks fuel c.next
    else
      match c.lineBreak? with
      | none => (some [], c)
      | some (b, c) =>
        if c.atAnyMarker then
          (none, c)
        else
          let (breaks, c) := plainBreaks fuel c
          (breaks.map (b :: ·), c)

/-- The space between two words of a plain scalar, nothing if the scalar ends before it, and whether
    there was a line break. -/
def plainSpace (c : Cursor) : List Char × Bool × Cursor :=
  let (spaces, c) := c.span (· == ' ')
  match c.lineBreak? with
  | none => (spaces, false, c)
  | some (b, c) =>
    if c.atAnyMarker then
      ([], true, c)
    else
      match plainBreaks (c.rest.length + 1) c with
      | (none, c) => ([], true, c)
      | (some breaks, c) => (fold b breaks, true, c)

/-- A plain scalar: its text, whether the last space holds a line break, and the place after that
    space. Lines after the first must be indented by more than the block around them. -/
def readPlain (inFlow : Bool) (indent : Int) : Nat → Cursor → List Char × Bool × Cursor
  | 0, c => ([], false, c)
  | fuel + 1, c =>
    let length := plainLength inFlow c.rest
    if c.peek = some '#' ∨ length = 0 then
      ([], false, c)
    else
      let word := c.rest.take length
      let (space, broken, after) := plainSpace (c.skip length)
      if space.isEmpty || after.peek == some '#' || (!inFlow && (after.column : Int) ≤ indent) then
        (word, broken, after)
      else
        match readPlain inFlow indent fuel after with
        | ([], _, c) => (word, broken, c)
        | (more, brokenLater, c) => (word ++ space ++ more, brokenLater, c)

/-- What happens to the line breaks at the end of a block: all but one go, all go, or all stay. -/
inductive Chomping where
  | clip
  | strip
  | keep
  deriving Repr, DecidableEq

/-- The sign of a chomping. -/
def chompingOf? : Char → Option Chomping
  | '+' => some .keep
  | '-' => some .strip
  | _ => none

/-- The indicators after the sign of a block: a chomping and an indentation, in either order. -/
def readIndicators (c : Cursor) : Except Error (Parsed (Chomping × Option Nat)) := do
  let digit := fun (c : Cursor) => (c.peek.filter (·.isDigit)).map fun d => d.toNat - 48
  let (chomping, c) := match c.peek.bind chompingOf? with
    | some chomping => (some chomping, c.next)
    | none => (none, c)
  let (increment, c) := match digit c with
    | some n => (some n, c.next)
    | none => (none, c)
  let (chomping, c) := match chomping, increment, c.peek.bind chompingOf? with
    | none, some _, some later => (some later, c.next)
    | _, _, _ => (chomping, c)
  if increment = some 0 || !endsPart c.peek then
    .error .malformed
  else
    return ((chomping.getD .clip, increment), c)

/-- The rest of a line that may hold nothing but a comment. -/
def readLineEnd (c : Cursor) : Except Error Cursor :=
  let c := c.skipSpaces.skipComment
  if endsLine c.peek then .ok c.skipBreak else .error .malformed

/-- The blank lines at the start of a block, and the widest indentation among them. -/
def leadingBreaks : Nat → Nat → Cursor → List Char × Nat × Cursor
  | 0, widest, c => ([], widest, c)
  | fuel + 1, widest, c =>
    if c.peek = some ' ' then
      leadingBreaks fuel (max widest c.next.column) c.next
    else
      match c.lineBreak? with
      | none => ([], widest, c)
      | some (b, c) =>
        let (breaks, widest, c) := leadingBreaks fuel widest c
        (b :: breaks, widest, c)

def skipIndent (indent : Nat) (c : Cursor) : Cursor :=
  c.skip (min (indent - c.column) (c.rest.takeWhile (· == ' ')).length)

/-- The blank lines inside a block of a given indentation. -/
def blockBreaks (indent : Nat) : Nat → Cursor → List Char × Cursor
  | 0, c => ([], c)
  | fuel + 1, c =>
    let c := skipIndent indent c
    match c.lineBreak? with
    | none => ([], c)
    | some (b, c) =>
      let (breaks, c) := blockBreaks indent fuel c
      (b :: breaks, c)

/-- Whether a line of a block goes on at the cursor. -/
def inBlock (indent : Nat) (c : Cursor) : Bool :=
  c.column == indent && !c.rest.isEmpty

/-- The lines of a block: the text up to the last line break, that line break, and the blank lines
    after it. In a folded block the break between two lines that start with no blank is folded. -/
def blockLines (folded : Bool) (indent : Nat) :
    Nat → List Char → Cursor → List Char × List Char × List Char × Cursor
  | 0, breaks, c => ([], [], breaks, c)
  | fuel + 1, breaks, c =>
    if inBlock indent c then
      let startsFull := !c.peek.any isBlank
      let (text, c) := c.span (!isBreak ·)
      let (lineBreak, c) := match c.lineBreak? with
        | some (b, c) => ([b], c)
        | none => ([], c)
      let (later, c) := blockBreaks indent (c.rest.length + 1) c
      if inBlock indent c then
        let joint :=
          if folded && lineBreak == ['\n'] && startsFull && !c.peek.any isBlank then
            if later.isEmpty then [' '] else []
          else
            lineBreak
        let (more, last, trailing, c) := blockLines folded indent fuel later c
        (breaks ++ text ++ joint ++ more, last, trailing, c)
      else
        (breaks ++ text, lineBreak, later, c)
    else
      ([], [], breaks, c)

/-- A block scalar, from after its sign, in a block of some indentation. -/
def readBlock (folded : Bool) (outer : Int) (c : Cursor) : Except Error (Parsed (List Char)) := do
  let ((chomping, increment), c) ← readIndicators c
  let c ← readLineEnd c
  let least := max 1 (outer + 1).toNat
  let (breaks, indent, c) := match increment with
    | none =>
      let (breaks, widest, c) := leadingBreaks (c.rest.length + 1) 0 c
      (breaks, max least widest, c)
    | some increment =>
      let indent := least + increment - 1
      let (breaks, c) := blockBreaks indent (c.rest.length + 1) c
      (breaks, indent, c)
  let (text, last, trailing, c) := blockLines folded indent (c.rest.length + 1) breaks c
  return (match chomping with
    | .strip => (text, c)
    | .clip => (text ++ last, c)
    | .keep => (text ++ last ++ trailing, c))

end Yaml

end ImportCycles
