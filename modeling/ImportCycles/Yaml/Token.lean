import ImportCycles.Text.Integer
import ImportCycles.Yaml.Scalar

namespace ImportCycles

namespace Yaml

inductive Directive where
  | version (major : Nat)
  | handle (handle : String) (meaning : String)
  | other
  deriving Repr, DecidableEq

inductive Token where
  | streamEnd
  | broken (error : Error)
  | directive (directive : Directive)
  | documentStart
  | documentEnd
  | blockSequenceStart
  | blockMappingStart
  | blockEnd
  | flowSequenceStart
  | flowSequenceEnd
  | flowMappingStart
  | flowMappingEnd
  | blockEntry
  | flowEntry
  | key
  | value
  | alias (name : String)
  | anchor (name : String)
  | tag (handle : Option String) (suffix : String)
  | scalar (text : String) (plain : Bool)
  deriving Repr, DecidableEq

def isNameChar (c : Char) : Bool :=
  c.isAlphanum || c == '-' || c == '_'

/-- An anchor or an alias, from after its sign. -/
def readName (c : Cursor) : Except Error (Parsed String) :=
  let (name, c) := c.span isNameChar
  let ends := c.peek.all fun ch =>
    endsWord (some ch) || ['?', ':', ',', ']', '\x7d', '%', '@', '\x60'].contains ch
  if name.isEmpty || !ends then .error .malformed else .ok (String.ofList name, c)

/-- The characters of a tag's suffix, apart from percent signs, which announce bytes. -/
def isUriChar (c : Char) : Bool :=
  c.isAlphanum || ['-', ';', '/', '?', ':', '@', '&', '=', '+', '$', ',', '_', '.', '!', '~', '*',
    '\x27', '(', ')', '[', ']'].contains c

/-- Bytes written as percent signs and two digits each. -/
def readUriBytes : Nat → Cursor → Except Error (Parsed (List UInt8))
  | 0, c => .ok ([], c)
  | fuel + 1, c =>
    if c.peek = some '%' then
      match Text.hexCode? 2 (c.next.rest.take 2) with
      | some byte => do
        let (bytes, c) ← readUriBytes fuel (c.skip 3)
        return (UInt8.ofNat byte :: bytes, c)
      | none => .error .malformed
    else
      .ok ([], c)

/-- The suffix of a tag, or what a handle means. It may be empty here. -/
def readUriParts : Nat → Cursor → Except Error (Parsed (List Char))
  | 0, c => .ok ([], c)
  | fuel + 1, c =>
    let (text, c) := c.span isUriChar
    if c.peek = some '%' then do
      let (bytes, c) ← readUriBytes (c.rest.length + 1) c
      match Utf8.decode bytes with
      | .error _ => .error .malformed
      | .ok decoded =>
        let (more, c) ← readUriParts fuel c
        return (text ++ decoded ++ more, c)
    else
      .ok (text, c)

/-- The suffix of a tag, or what a handle means. -/
def readUri (c : Cursor) : Except Error (Parsed String) := do
  let (text, after) ← readUriParts (c.rest.length + 1) c
  if after.index = c.index then .error .malformed else return (String.ofList text, after)

/-- A handle: one exclamation mark, or a name between two. -/
def readHandle (c : Cursor) : Except Error (Parsed String) :=
  if c.peek ≠ some '!' then
    .error .malformed
  else if c.peekAt 1 = some ' ' then
    .ok ("!", c.next)
  else
    let (name, after) := c.next.span isNameChar
    if after.peek = some '!' then .ok ("!" ++ String.ofList name ++ "!", after.next)
    else .error .malformed

/-- Whether an exclamation mark comes before the end of the part that starts here. -/
def hasHandle (cs : List Char) : Bool :=
  (cs.takeWhile fun ch => !(ch == ' ' || isBreak ch)).contains '!'

/-- A tag, from its exclamation mark on. -/
def readTag (c : Cursor) : Except Error (Parsed Token) := do
  let (token, c) ←
    if c.peekAt 1 = some '<' then do
      let (suffix, c) ← readUri (c.skip 2)
      if c.peek = some '>' then pure (Token.tag none suffix, c.next) else .error .malformed
    else if endsWord (c.peekAt 1) then
      pure (Token.tag none "!", c.next)
    else if hasHandle c.next.rest then do
      let (handle, c) ← readHandle c
      let (suffix, c) ← readUri c
      pure (Token.tag (some handle) suffix, c)
    else do
      let (suffix, c) ← readUri c.next
      pure (Token.tag (some "!") suffix, c)
  if endsPart c.peek then return (token, c) else .error .malformed

def readVersionNumber (c : Cursor) : Except Error (Parsed Nat) :=
  let (digits, c) := c.span (·.isDigit)
  if digits.isEmpty then .error .malformed
  else if Text.maxDigits < digits.length then .error (.foreign .impossibleValue)
  else .ok (digits.foldl (fun n d => 10 * n + (d.toNat - 48)) 0, c)

def readVersion (c : Cursor) : Except Error (Parsed Directive) := do
  let (major, c) ← readVersionNumber c.skipSpaces
  if c.peek ≠ some '.' then
    .error .malformed
  else
    let (_, c) ← readVersionNumber c.next
    if endsPart c.peek then return (.version major, c) else .error .malformed

def readHandleMeaning (c : Cursor) : Except Error (Parsed Directive) := do
  let (handle, c) ← readHandle c.skipSpaces
  if c.peek ≠ some ' ' then
    .error .malformed
  else
    let (meaning, c) ← readUri c.skipSpaces
    if endsPart c.peek then return (.handle handle meaning, c) else .error .malformed

/-- A directive, from its percent sign on, with the rest of its line. -/
def readDirective (c : Cursor) : Except Error (Parsed Token) := do
  let (name, c) := c.next.span isNameChar
  if name.isEmpty || !endsPart c.peek then
    .error .malformed
  else
    let (directive, c) ←
      if name = ['Y', 'A', 'M', 'L'] then readVersion c
      else if name = ['T', 'A', 'G'] then readHandleMeaning c
      else pure (Directive.other, c.skipWhile (!isBreak ·))
    let c ← readLineEnd c
    return (.directive directive, c)

end Yaml

end ImportCycles
