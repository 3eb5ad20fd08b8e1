import ImportCycles.Text.Blank

namespace ImportCycles

namespace Text

/-- The zeros of the decimal digits of all scripts; the other nine digits follow each zero. -/
def digitZeros : List Nat := [
    48, 1632, 1776, 1984, 2406, 2534, 2662, 2790, 2918, 3046, 3174, 3302, 3430, 3558, 3664, 3792,
    3872, 4160, 4240, 6112, 6160, 6470, 6608, 6784, 6800, 6992, 7088, 7232, 7248, 42528, 43216,
    43264, 43472, 43504, 43600, 44016, 65296, 66720, 68912, 69734, 69872, 69942, 70096, 70384,
    70736, 70864, 71248, 71360, 71472, 71904, 72016, 72784, 73040, 73120, 92768, 92864, 93008,
    120782, 120792, 120802, 120812, 120822, 123200, 123632, 125264, 130032]

/-- The value of a decimal digit of any script. -/
def digitValue? (c : Char) : Option Nat :=
  (digitZeros.find? fun first => first ≤ c.toNat ∧ c.toNat < first + 10).map (c.toNat - ·)

def maxDigits : Nat := 4300

/-- The number that digits spell, where an underscore may stand between two digits. -/
def readDigits (value digits : Nat) : List Char → Option Nat
  | [] => if digits = 0 ∨ maxDigits < digits then none else some value
  | '_' :: c :: rest =>
    if digits = 0 then none
    else (digitValue? c).bind fun d => readDigits (10 * value + d) (digits + 1) rest
  | c :: rest => (digitValue? c).bind fun d => readDigits (10 * value + d) (digits + 1) rest

/-- A blank beside a number. The four separators of information are none. -/
def isNumberBlank (c : Char) : Bool :=
  isBlank c && !(28 ≤ c.toNat && c.toNat ≤ 31)

/-- The integer that a text spells: digits of any script, single underscores between them, a sign,
    and blanks around the whole. -/
def readInt? (s : String) : Option Int :=
  match trimBy isNumberBlank s.toList with
  | '-' :: rest => (readDigits 0 0 rest).map fun n => -(n : Int)
  | '+' :: rest => (readDigits 0 0 rest).map fun n => (n : Int)
  | cs => (readDigits 0 0 cs).map fun n => (n : Int)

/-- The value of a digit in a radix. The letters follow the ten decimal digits. -/
def radixDigit? (radix : Nat) (c : Char) : Option Nat :=
  let value :=
    if 'a' ≤ c ∧ c ≤ 'z' then some (c.toNat - 87)
    else if 'A' ≤ c ∧ c ≤ 'Z' then some (c.toNat - 55)
    else digitValue? c
  value.filter (· < radix)

/-- The letter that announces a radix after a zero. -/
def radixLetter? : Nat → Option Char
  | 2 => some 'b'
  | 8 => some 'o'
  | 16 => some 'x'
  | _ => none

/-- The text after the mark of a radix, if it is there. -/
def dropRadixMark (radix : Nat) : List Char → List Char
  | '0' :: letter :: rest =>
    if radixLetter? radix = some letter.toLower then rest else '0' :: letter :: rest
  | cs => cs

/-- The number that digits of a radix spell, after the mark of the radix if it is there. -/
def readNatIn? (radix : Nat) (cs : List Char) : Option Nat :=
  let digits := dropRadixMark radix cs
  if digits.isEmpty then
    none
  else
    (digits.mapM (radixDigit? radix)).map fun values => values.foldl (fun n d => radix * n + d) 0

/-- The integer that a text without underscores spells in a radix. -/
def readIntIn? (radix : Nat) (cs : List Char) : Option Int :=
  match trimBy isNumberBlank cs with
  | '-' :: rest => (readNatIn? radix rest).map fun n => -(n : Int)
  | '+' :: rest => (readNatIn? radix rest).map fun n => (n : Int)
  | cs => (readNatIn? radix cs).map fun n => (n : Int)

/-- Whether a character is a decimal digit of any script. -/
def isAnyDigit (c : Char) : Bool :=
  (digitValue? c).isSome

/-- Whether a text is an exponent, or empty. -/
def isExponent : List Char → Bool
  | [] => true
  | e :: rest =>
    let digits := match rest with
      | '-' :: digits => digits
      | '+' :: digits => digits
      | digits => digits
    e.toLower == 'e' && !digits.isEmpty && digits.all isAnyDigit

/-- Whether a text without a sign is a fraction: digits with a point among or beside them and maybe
    an exponent, or a word for what is beyond all bounds or no number. -/
def isUnsignedFraction (cs : List Char) : Bool :=
  let words := ["inf", "infinity", "nan"].map String.toList
  let whole := cs.takeWhile isAnyDigit
  let rest := cs.dropWhile isAnyDigit
  words.contains (cs.map Char.toLower) ||
    (match rest with
      | '.' :: rest =>
        let places := rest.takeWhile isAnyDigit
        !(whole.isEmpty && places.isEmpty) && isExponent (rest.dropWhile isAnyDigit)
      | rest => !whole.isEmpty && isExponent rest)

/-- Whether a text without underscores spells a fraction. -/
def isFraction (cs : List Char) : Bool :=
  match trimBy isNumberBlank cs with
  | '-' :: rest => isUnsignedFraction rest
  | '+' :: rest => isUnsignedFraction rest
  | cs => isUnsignedFraction cs

end Text

end ImportCycles
