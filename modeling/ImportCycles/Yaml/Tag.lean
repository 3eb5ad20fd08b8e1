import ImportCycles.Calendar
import ImportCycles.Text.Digits
import ImportCycles.Text.Lowercase
import ImportCycles.Yaml.Cursor

namespace ImportCycles

namespace Yaml

/-- The types of nodes. `merge` and `default` mark special keys of mappings, `unknown` is every type
    that has no values. -/
inductive Tag where
  | null
  | boolean
  | integer
  | float
  | binary
  | timestamp
  | omap
  | pairs
  | set
  | text
  | sequence
  | mapping
  | merge
  | default
  | unknown
  deriving Repr, DecidableEq

/-- What the names of the common types start with. -/
def commonTypes : String := "tag:yaml.org,2002:"

def Tag.ofName (name : String) : Tag :=
  let names : List (String × Tag) :=
    [("null", .null), ("bool", .boolean), ("int", .integer), ("float", .float),
      ("binary", .binary), ("timestamp", .timestamp), ("omap", .omap), ("pairs", .pairs),
      ("set", .set), ("str", .text), ("seq", .sequence), ("map", .mapping), ("merge", .merge),
      ("value", .default)]
  ((names.map fun (short, tag) => (commonTypes ++ short, tag)).lookup name).getD .unknown

/-- The words for truth values, each in lower case, with a capital, and in capitals. -/
def booleanWords : List (String × Bool) :=
  [("yes", true), ("no", false), ("true", true), ("false", false), ("on", true), ("off", false)]

/-- The spellings of a word that are recognised. -/
def spellings (word : String) : List (List Char) :=
  let cs := word.toList
  let capital := match cs with
    | [] => []
    | c :: rest => c.toUpper :: rest
  [cs, capital, cs.map Char.toUpper]

/-- Whether a text is a word for a truth value. -/
def isBooleanForm (cs : List Char) : Bool :=
  booleanWords.any fun (word, _) => (spellings word).contains cs

def isNullForm (cs : List Char) : Bool :=
  cs.isEmpty || cs == ['~'] || (spellings "null").contains cs

/-- The decimal digits and the underscore between them. -/
def isDigitOrLine (c : Char) : Bool :=
  c.isDigit || c == '_'

/-- The text after a sign, if there is one. -/
def dropSign : List Char → List Char
  | '-' :: rest => rest
  | '+' :: rest => rest
  | cs => cs

/-- A group of one or two digits below sixty after a colon, and the text after it. -/
def sixtieth? : List Char → Option (List Char)
  | ':' :: c :: rest =>
    if c.isDigit then
      match rest with
      | d :: more => if c ≤ '5' && d.isDigit then some more else some rest
      | [] => some []
    else
      none
  | _ => none

/-- The text after as many groups of sixty as there are, and whether there was one. -/
def skipSixtieths : Nat → List Char → Bool × List Char
  | 0, cs => (false, cs)
  | fuel + 1, cs =>
    match sixtieth? cs with
    | none => (false, cs)
    | some rest => (true, (skipSixtieths fuel rest).2)

/-- Whether a text is an exponent with its sign, or empty. -/
def isExponent : List Char → Bool
  | [] => true
  | e :: s :: digits =>
    (e == 'e' || e == 'E') && (s == '-' || s == '+') && !digits.isEmpty && digits.all Char.isDigit
  | _ => false

def isFloatForm (cs : List Char) : Bool :=
  let unsigned := dropSign cs
  let special := fun (words : List String) (cs : List Char) =>
    words.any fun word => cs == '.' :: word.toList
  let startsWithDigit := unsigned.head?.any Char.isDigit
  let afterWhole := unsigned.dropWhile isDigitOrLine
  let pointed := match afterWhole with
    | '.' :: rest => startsWithDigit && isExponent (rest.dropWhile isDigitOrLine)
    | _ => false
  let bare := match cs with
    | '.' :: rest => rest.head?.any Char.isDigit && isExponent (rest.dropWhile isDigitOrLine)
    | _ => false
  let sixties := match skipSixtieths afterWhole.length afterWhole with
    | (true, '.' :: rest) => startsWithDigit && rest.all isDigitOrLine
    | _ => false
  pointed || bare || sixties || special ["inf", "Inf", "INF"] unsigned ||
    special ["nan", "NaN", "NAN"] cs

/-- Whether a text has the form of an integer: binary, octal, decimal, hexadecimal, or in groups of
    sixty. -/
def isIntegerForm (cs : List Char) : Bool :=
  let nonempty := fun (p : Char → Bool) (cs : List Char) => !cs.isEmpty && cs.all p
  match dropSign cs with
  | '0' :: 'b' :: rest => nonempty (fun c => c == '0' || c == '1' || c == '_') rest
  | '0' :: 'x' :: rest => nonempty (fun c => Text.isHexDigit c || c == '_') rest
  | '0' :: rest => rest.all fun c => ('0' ≤ c && c ≤ '7') || c == '_'
  | c :: rest =>
    c.isDigit &&
      (match skipSixtieths rest.length (rest.dropWhile isDigitOrLine) with
        | (_, after) => after.isEmpty)
  | [] => false

/-- A point in time as it is written: a date, and maybe a time with its distance in minutes from
    universal time. `narrow` says that month and day have two digits each. -/
structure Stamp where
  year : Nat
  month : Nat
  day : Nat
  narrow : Bool
  time : Option (Nat × Nat × Nat)
  offset : Nat := 0
  deriving Repr, DecidableEq

/-- The number that one or two digits spell, how many they are, and the text after them. -/
def shortNumber? (cs : List Char) : Option (Nat × Nat × List Char) :=
  match cs with
  | c :: d :: rest =>
    if c.isDigit && d.isDigit then some (10 * (c.toNat - 48) + (d.toNat - 48), 2, rest)
    else if c.isDigit then some (c.toNat - 48, 1, d :: rest)
    else none
  | [c] => if c.isDigit then some (c.toNat - 48, 1, []) else none
  | [] => none

/-- The distance from universal time at the end of a text, in minutes. -/
def readOffset? (cs : List Char) : Option Nat :=
  match cs.dropWhile fun c => c == ' ' || c == '\t' with
  | [] => if cs.isEmpty then some 0 else none
  | ['Z'] => some 0
  | s :: rest => do
    if s = '-' ∨ s = '+' then
      let (hours, _, rest) ← shortNumber? rest
      if rest.isEmpty then
        some (60 * hours)
      else
        let rest ← Text.after? ':' rest
        let (minutes, rest) ← Text.fixedDigits? 2 rest
        if rest.isEmpty then some (60 * hours + minutes) else none
    else
      none

/-- The point in time that a text spells, whether it exists or not. -/
def readStamp? (cs : List Char) : Option Stamp := do
  let (year, cs) ← Text.fixedDigits? 4 cs
  let cs ← Text.after? '-' cs
  let (month, monthDigits, cs) ← shortNumber? cs
  let cs ← Text.after? '-' cs
  let (day, dayDigits, cs) ← shortNumber? cs
  let narrow := monthDigits == 2 && dayDigits == 2
  match cs with
  | [] => some { year, month, day, narrow, time := none }
  | c :: rest =>
    let cs ←
      if c = 'T' ∨ c = 't' then some rest
      else if c = ' ' ∨ c = '\t' then some (rest.dropWhile fun c => c == ' ' || c == '\t')
      else none
    let (hour, _, cs) ← shortNumber? cs
    let cs ← Text.after? ':' cs
    let (minute, cs) ← Text.fixedDigits? 2 cs
    let cs ← Text.after? ':' cs
    let (second, cs) ← Text.fixedDigits? 2 cs
    let cs := match cs with
      | '.' :: rest => rest.dropWhile Char.isDigit
      | _ => cs
    let offset ← readOffset? cs
    some { year, month, day, narrow, time := some (hour, minute, second), offset }

/-- Whether a text has the form of a point in time. A date alone needs two digits everywhere. -/
def isTimestampForm (cs : List Char) : Bool :=
  (readStamp? cs).any fun stamp => stamp.narrow || stamp.time.isSome

/-- The type of a plain scalar by its exact form. -/
def Tag.ofForm (cs : List Char) : Tag :=
  if isBooleanForm cs then .boolean
  else if isFloatForm cs then .float
  else if isIntegerForm cs then .integer
  else if cs = ['<', '<'] then .merge
  else if isNullForm cs then .null
  else if isTimestampForm cs then .timestamp
  else if cs = ['='] then .default
  else if cs = ['!'] ∨ cs = ['&'] ∨ cs = ['*'] then .unknown
  else .text

def dropLastFeed (cs : List Char) : List Char :=
  if 1 < cs.length ∧ cs.getLast? = some '\n' then cs.dropLast else cs

/-- The type of a plain scalar. A line feed at its end does not count. -/
def Tag.ofPlain (cs : List Char) : Tag :=
  match Tag.ofForm cs with
  | .text => Tag.ofForm (dropLastFeed cs)
  | tag => tag

end Yaml

end ImportCycles
