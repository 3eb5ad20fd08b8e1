import ImportCycles.Text.Base64
import ImportCycles.Text.Integer
import ImportCycles.Yaml.Tag

namespace ImportCycles

namespace Yaml

/-- A value. Collections name their parts by number, since a collection may be in itself. Fractions,
    bytes, points in time and sets are not told apart. -/
inductive Value where
  | null
  | boolean (value : Bool)
  | integer (value : Int)
  | text (value : String)
  | list (items : List Nat)
  | mapping (entries : List (Nat × Nat))
  | other
  deriving Repr, DecidableEq

def Value.text? : Value → Option String
  | .text value => some value
  | _ => none

/-- The truth value of a word, in any case. -/
def readBoolean (text : String) : Except Error Bool :=
  match booleanWords.lookup (Text.lower text) with
  | some value => .ok value
  | none => .error (.foreign .unknownWord)

/-- A number without its underscores and its sign, and whether the sign is a minus. -/
def splitSign (cs : List Char) : Except Error (Bool × List Char) :=
  match cs.filter (· != '_') with
  | [] => .error (.foreign .emptyNumber)
  | '-' :: rest => .ok (true, rest)
  | '+' :: rest => .ok (false, rest)
  | cs => .ok (false, cs)

def colonParts : List Char → List (List Char)
  | [] => [[]]
  | c :: rest => if c = ':' then [] :: colonParts rest else Text.pushFront c (colonParts rest)

/-- The size of an integer without sign and underscores, in the radix that its start tells, or in
    groups of sixty. -/
def readMagnitude (cs : List Char) : Except Error Int :=
  let orImpossible := fun (n : Option Int) => match n with
    | some n => Except.ok n
    | none => .error (.foreign .impossibleValue)
  match cs with
  | [] => .error (.foreign .emptyNumber)
  | '0' :: 'b' :: digits => orImpossible (Text.readIntIn? 2 digits)
  | '0' :: 'x' :: digits => orImpossible (Text.readIntIn? 16 digits)
  | '0' :: digits => orImpossible (Text.readIntIn? 8 ('0' :: digits))
  | cs =>
    let parts := (colonParts cs).mapM fun part => Text.readInt? (String.ofList part)
    orImpossible (parts.map fun parts => parts.foldl (fun n part => 60 * n + part) 0)

def readInteger (text : String) : Except Error Int := do
  let (negative, unsigned) ← splitSign text.toList
  let n ← readMagnitude unsigned
  return if negative then -n else n

/-- The most groups of sixty that a fraction may have: the next group would have no finite weight.
    -/
def maxFractionGroups : Nat := 174

def checkFraction (text : String) : Except Error Unit := do
  let (_, unsigned) ← splitSign (Text.lower text).toList
  let parts := colonParts unsigned
  if unsigned = ".inf".toList ∨ unsigned = ".nan".toList then return ()
  else if !parts.all Text.isFraction then .error (.foreign .impossibleValue)
  else if maxFractionGroups < parts.length then .error (.foreign .tooLarge)
  else return ()

/-- Whether a text is a point in time that exists. The distance from universal time is less than a
    day. -/
def checkTimestamp (text : String) : Except Error Unit :=
  let cs := text.toList
  let bare := if cs.getLast? = some '\n' then cs.dropLast else cs
  match readStamp? bare with
  | none => .error (.foreign .malformedDate)
  | some stamp =>
    let timeExists := stamp.time.all fun (hour, minute, second) =>
      Calendar.isTime hour minute second
    if Calendar.isDate stamp.year stamp.month stamp.day && timeExists && stamp.offset < 24 * 60 then
      .ok ()
    else
      .error (.foreign .impossibleValue)

/-- The value of a scalar of some type, which a tag may have given it whatever its form is. Types of
    collections have none, nor have the types of special keys. -/
def Tag.valueOf (tag : Tag) (text : String) : Except Error Value :=
  match tag with
  | .null => .ok .null
  | .boolean => (readBoolean text).map .boolean
  | .integer => (readInteger text).map .integer
  | .float => (checkFraction text).map fun _ => .other
  | .binary => if Text.isBase64 text.toList then .ok .other else .error .malformed
  | .timestamp => (checkTimestamp text).map fun _ => .other
  | .text => .ok (.text text)
  | .omap | .pairs | .set | .sequence | .mapping | .merge | .default | .unknown =>
    .error .malformed

/-- Whether the values of a type are collections. -/
def Tag.isCollection : Tag → Bool
  | .omap | .pairs | .set | .sequence | .mapping => true
  | _ => false

end Yaml

end ImportCycles
