import ImportCycles.CommandLine.Arguments
import ImportCycles.Text.Integer

namespace ImportCycles

namespace CommandLine

/-- A value that is attached to a switch in the same word, after an equals sign or at once. -/
structure Attached where
  value : List Char
  afterEquals : Bool
  deriving Repr, DecidableEq

/-- A word that is no switch: a text, or the two dashes that end the switches. -/
inductive Operand where
  | text (text : String)
  | separator
  deriving Repr, DecidableEq

inductive Word where
  | operand (operand : Operand)
  | switch (switch : Switch) (short : Bool) (attached : Option Attached)
  | unknown
  deriving Repr, DecidableEq

/-- How a command line ends the program before it starts. -/
inductive Exit where
  | help
  | usage
  deriving Repr, DecidableEq

def Exit.code : Exit → Nat
  | .help => 0
  | .usage => 2

/-- Whether a text is a minus sign with digits after it, and maybe a point among or before them. A
    line feed may follow. -/
def looksNegative (cs : List Char) : Bool :=
  match cs with
  | '-' :: rest =>
    let rest := if rest.getLast? = some '\n' then rest.dropLast else rest
    let isDigit := fun c => (Text.digitValue? c).isSome
    match rest.dropWhile isDigit with
    | [] => !rest.isEmpty
    | '.' :: fraction => !fraction.isEmpty && fraction.all isDigit
    | _ => false
  | _ => false

/-- The text before the first equals sign, and the text after it if there is one. -/
def splitEquals (cs : List Char) : List Char × Option (List Char) :=
  match cs.dropWhile (· != '=') with
  | [] => (cs, none)
  | _ :: value => (cs.takeWhile (· != '='), some value)

/-- A word that is no switch of this program. -/
def plainOrUnknown (cs : List Char) : Word :=
  if looksNegative cs || cs.contains ' ' then .operand (.text (String.ofList cs)) else .unknown

/-- Read a word that starts with two dashes and more. A full name wins over a beginning. -/
def readLong (cs : List Char) : Except Exit Word :=
  let (name, value) := splitEquals cs
  let attached := value.map fun value => { value, afterEquals := true }
  let full := fun text => Switch.longNames.lookup (String.ofList text)
  match full cs, full name with
  | some switch, _ => .ok (.switch switch false none)
  | none, some switch => .ok (.switch switch false attached)
  | none, none =>
    match Switch.matching name with
    | [] => .ok (plainOrUnknown cs)
    | [switch] => .ok (.switch switch false attached)
    | _ => .error .usage

/-- Read a word that starts with one dash and a letter. What follows the letter is attached. -/
def readShort (letter : Char) (rest : List Char) : Word :=
  match Switch.ofShort? letter, rest with
  | none, _ => plainOrUnknown ('-' :: letter :: rest)
  | some switch, [] => .switch switch true none
  | some switch, '=' :: value => .switch switch true (some { value, afterEquals := true })
  | some switch, value => .switch switch true (some { value, afterEquals := false })

/-- Read a word before the two dashes that end the switches. -/
def readWord (arg : String) : Except Exit Word :=
  match arg.toList with
  | '-' :: '-' :: rest => readLong ('-' :: '-' :: rest)
  | '-' :: letter :: rest => .ok (readShort letter rest)
  | _ => .ok (.operand (.text arg))

def readWords : List String → Except Exit (List Word)
  | [] => .ok []
  | arg :: rest =>
    if arg = "--" then
      .ok (.operand .separator :: rest.map fun arg => .operand (.text arg))
    else do
      let word ← readWord arg
      let words ← readWords rest
      return word :: words

end CommandLine

end ImportCycles
