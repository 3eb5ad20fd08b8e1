import ImportCycles.Calendar
import ImportCycles.Text.Digits
import ImportCycles.Text.Integer
import ImportCycles.Toml.Value

namespace ImportCycles

namespace Toml

/-- What a reader gives: a value and the text after it. -/
abbrev Parsed (α : Type) := α × List Char

/-- A blank within a line. -/
def isBlank (c : Char) : Bool :=
  c == ' ' || c == '\t'

def skipBlanks (cs : List Char) : List Char :=
  cs.dropWhile isBlank

/-- The control characters that may stand nowhere in a line. -/
def isControl (c : Char) : Bool :=
  (c.toNat < 32 && c != '\t') || c.toNat == 127

/-- The text after a comment, if there is one. -/
def skipComment : List Char → Except Error (List Char)
  | '#' :: rest =>
    if (rest.takeWhile (· != '\n')).any isControl then .error .malformed
    else .ok (rest.dropWhile (· != '\n'))
  | cs => .ok cs

/-- The character whose code is written with `digits` hexadecimal digits. -/
def readHexChar (digits : Nat) (cs : List Char) : Except Error (Parsed Char) :=
  match Text.hexCode? digits (cs.take digits) with
  | none => .error .malformed
  | some code =>
    if code.isValidChar then .ok (Char.ofNat code, cs.drop digits) else .error .malformed

/-- The character that a letter stands for after a backslash. -/
def escapedChar? : Char → Option Char
  | 'b' => some (Char.ofNat 8)
  | 't' => some '\t'
  | 'n' => some '\n'
  | 'f' => some (Char.ofNat 12)
  | 'r' => some '\r'
  | '"' => some '"'
  | '\\' => some '\\'
  | _ => none

/-- The text after a line break that a backslash hides, with the blanks around it. -/
def skipHiddenBreak (cs : List Char) : Except Error (List Char) :=
  let isSpace := fun c => isBlank c || c == '\n'
  match skipBlanks cs with
  | [] => .ok []
  | '\n' :: rest => .ok (rest.dropWhile isSpace)
  | _ => .error .malformed

/-- What a backslash stands for: a character, or nothing where it hides a line break. -/
def readEscape (multiline : Bool) : List Char → Except Error (Parsed (List Char))
  | 'u' :: rest => do
    let (c, rest) ← readHexChar 4 rest
    return ([c], rest)
  | 'U' :: rest => do
    let (c, rest) ← readHexChar 8 rest
    return ([c], rest)
  | c :: rest =>
    if multiline && (isBlank c || c == '\n') then do
      let rest ← skipHiddenBreak (c :: rest)
      return ([], rest)
    else
      match escapedChar? c with
      | some e => .ok ([e], rest)
      | none => .error .malformed
  | [] => .error .malformed

/-- The rest of a string in double quotes, from after the opening ones. -/
def readBasic (multiline : Bool) : Nat → List Char → Except Error (Parsed (List Char))
  | 0, _ => .error .malformed
  | _ + 1, [] => .error .malformed
  | fuel + 1, c :: rest =>
    if c = '"' then
      if !multiline then .ok ([], rest)
      else if ['"', '"'].isPrefixOf rest then .ok ([], rest.drop 2)
      else do
        let (text, rest) ← readBasic multiline fuel rest
        return (c :: text, rest)
    else if c = '\\' then do
      let (escape, rest) ← readEscape multiline rest
      let (text, rest) ← readBasic multiline fuel rest
      return (escape ++ text, rest)
    else if isControl c && !(multiline && c == '\n') then
      .error .malformed
    else do
      let (text, rest) ← readBasic multiline fuel rest
      return (c :: text, rest)

/-- The rest of a string in single quotes, from after the opening ones. -/
def readLiteral (multiline : Bool) : List Char → Except Error (Parsed (List Char))
  | [] => .error .malformed
  | c :: rest =>
    if c = '\x27' ∧ (!multiline ∨ ['\x27', '\x27'].isPrefixOf rest) then
      .ok ([], if multiline then rest.drop 2 else rest)
    else if isControl c && !(multiline && c == '\n') then
      .error .malformed
    else do
      let (text, rest) ← readLiteral multiline rest
      return (c :: text, rest)

def dropFeed : List Char → List Char
  | '\n' :: rest => rest
  | cs => cs

/-- Up to two more quotes belong to a string over several lines, though three have ended it. -/
def moreQuotes (quote : Char) (text rest : List Char) : List Char × List Char :=
  match rest with
  | c :: rest' =>
    if c = quote then
      match rest' with
      | d :: rest'' => if d = quote then (text ++ [c, d], rest'') else (text ++ [c], rest')
      | [] => (text ++ [c], [])
    else (text, rest)
  | [] => (text, [])

/-- A string that starts here, if one does. -/
def readString? (cs : List Char) : Option (Except Error (Parsed String)) :=
  let finish := fun (quote : Char) (reading : Except Error (Parsed (List Char))) => do
    let (text, rest) ← reading
    let (text, rest) := moreQuotes quote text rest
    return (String.ofList text, rest)
  let single := fun (reading : Except Error (Parsed (List Char))) => do
    let (text, rest) ← reading
    return (String.ofList text, rest)
  match cs with
  | [] => none
  | c :: rest =>
    if c = '"' then
      if ['"', '"'].isPrefixOf rest then
        let body := dropFeed (rest.drop 2)
        some (finish '"' (readBasic true (body.length + 1) body))
      else
        some (single (readBasic false (rest.length + 1) rest))
    else if c = '\x27' then
      if ['\x27', '\x27'].isPrefixOf rest then
        some (finish '\x27' (readLiteral true (dropFeed (rest.drop 2))))
      else
        some (single (readLiteral false rest))
    else
      none

def isKeyChar (c : Char) : Bool :=
  c.isAlphanum || c == '-' || c == '_'

/-- One part of a key. Strings over several lines are no keys. -/
def readKeyPart (cs : List Char) : Except Error (Parsed String) :=
  match cs with
  | [] => .error .malformed
  | c :: rest =>
    if isKeyChar c then
      .ok (String.ofList (cs.takeWhile isKeyChar), cs.dropWhile isKeyChar)
    else if c = '"' then do
      let (text, rest) ← readBasic false (rest.length + 1) rest
      return (String.ofList text, rest)
    else if c = '\x27' then do
      let (text, rest) ← readLiteral false rest
      return (String.ofList text, rest)
    else
      .error .malformed

/-- A key: parts with dots between them. -/
def readKey : Nat → List Char → Except Error (Parsed Key)
  | 0, _ => .error .malformed
  | fuel + 1, cs => do
    let (part, rest) ← readKeyPart cs
    match skipBlanks rest with
    | '.' :: rest =>
      let (parts, rest) ← readKey fuel (skipBlanks rest)
      return (part :: parts, rest)
    | rest => return ([part], rest)

/-- A run of digits that starts here. An underscore may stand between two digits. -/
def digitRun (isDigit : Char → Bool) : List Char → List Char × List Char
  | [] => ([], [])
  | c :: rest =>
    if isDigit c then
      let (digits, rest) := digitRun isDigit rest
      (c :: digits, rest)
    else if c = '_' && rest.head?.any isDigit then
      digitRun isDigit rest
    else
      ([], c :: rest)

/-- An integer in another base, written after a zero and a letter. -/
def readRadix? (cs : List Char) : Option (Value × List Char) :=
  let radix := fun (base : Nat) (isDigit : Char → Bool) (cs : List Char) =>
    if cs.head?.any isDigit then
      let (digits, rest) := digitRun isDigit cs
      some (Value.integer (Text.numberIn base digits), rest)
    else
      none
  match cs with
  | '0' :: 'x' :: rest => radix 16 Text.isHexDigit rest
  | '0' :: 'b' :: rest => radix 2 (fun c => c == '0' || c == '1') rest
  | '0' :: 'o' :: rest => radix 8 (fun c => '0' ≤ c && c ≤ '7') rest
  | _ => none

/-- The text after a fraction and an exponent, and whether there was one of them. -/
def skipFloatPart (cs : List Char) : Bool × List Char :=
  let (hasFraction, cs) := match cs with
    | '.' :: rest =>
      if rest.head?.any Char.isDigit then (true, (digitRun Char.isDigit rest).2) else (false, cs)
    | _ => (false, cs)
  match cs with
  | c :: rest =>
    let digits := match rest with
      | s :: more => if s = '+' ∨ s = '-' then more else rest
      | [] => rest
    if (c = 'e' ∨ c = 'E') ∧ digits.head?.any Char.isDigit then
      (true, (digitRun Char.isDigit digits).2)
    else (hasFraction, cs)
  | [] => (hasFraction, cs)

/-- A decimal number. A number does not start with a zero unless it is one. -/
def readDecimal? (cs : List Char) : Option (Except Error (Parsed Value)) :=
  let (negative, unsigned) := match cs with
    | '-' :: rest => (true, rest)
    | '+' :: rest => (false, rest)
    | _ => (false, cs)
  let whole := match unsigned with
    | '0' :: rest => some (['0'], rest)
    | _ => if unsigned.head?.any Char.isDigit then some (digitRun Char.isDigit unsigned) else none
  match whole with
  | none => none
  | some (digits, rest) =>
    match skipFloatPart rest with
    | (true, rest) => some (.ok (.other, rest))
    | (false, rest) =>
      if Text.maxDigits < digits.length then
        some (.error .impossibleValue)
      else
        let n : Int := Text.numberIn 10 digits
        some (.ok (.integer (if negative then -n else n), rest))

/-- A number that is none, or one beyond all bounds. -/
def readSpecial? (cs : List Char) : Option (Value × List Char) :=
  let unsigned := match cs with
    | '-' :: rest => rest
    | '+' :: rest => rest
    | _ => cs
  if ['i', 'n', 'f'].isPrefixOf unsigned || ['n', 'a', 'n'].isPrefixOf unsigned then
    some (.other, unsigned.drop 3)
  else
    none

def skipTime? (cs : List Char) : Option (List Char) := do
  let (hour, cs) ← Text.fixedDigits? 2 cs
  let cs ← Text.after? ':' cs
  let (minute, cs) ← Text.fixedDigits? 2 cs
  let cs ← Text.after? ':' cs
  let (second, cs) ← Text.fixedDigits? 2 cs
  if !Calendar.isTime hour minute second then
    none
  else
    match cs with
    | '.' :: rest =>
      if rest.head?.any Char.isDigit then some (rest.dropWhile Char.isDigit) else some cs
    | _ => some cs

/-- The text after the distance of a time from universal time, if it is given. -/
def skipOffset (cs : List Char) : List Char :=
  match cs with
  | c :: rest =>
    if c = 'Z' ∨ c = 'z' then
      rest
    else if c = '+' ∨ c = '-' then
      let offset := do
        let (hour, rest) ← Text.fixedDigits? 2 rest
        let rest ← Text.after? ':' rest
        let (minute, rest) ← Text.fixedDigits? 2 rest
        if Calendar.isTime hour minute 0 then some rest else none
      offset.getD cs
    else
      cs
  | [] => cs

/-- A date, maybe with a time. A text of this form that is no date is malformed. -/
def readDate? (cs : List Char) : Option (Except Error (Parsed Value)) := do
  let (year, cs) ← Text.fixedDigits? 4 cs
  let cs ← Text.after? '-' cs
  let (month, cs) ← Text.fixedDigits? 2 cs
  let cs ← Text.after? '-' cs
  let (day, cs) ← Text.fixedDigits? 2 cs
  if !(1 ≤ month && month ≤ 12 && 1 ≤ day && day ≤ 31) then
    none
  else
    let rest := match cs with
      | c :: more =>
        if c = 'T' ∨ c = 't' ∨ c = ' ' then ((skipTime? more).map skipOffset).getD cs else cs
      | [] => cs
    if Calendar.isDate year month day then some (.ok (.other, rest)) else some (.error .malformed)

end Toml

end ImportCycles
