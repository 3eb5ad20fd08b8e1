namespace ImportCycles

namespace Text

def hexValue? (c : Char) : Option Nat :=
  if '0' ≤ c ∧ c ≤ '9' then some (c.toNat - 48)
  else if 'a' ≤ c ∧ c ≤ 'f' then some (c.toNat - 87)
  else if 'A' ≤ c ∧ c ≤ 'F' then some (c.toNat - 55)
  else none

/-- Whether a character is a hexadecimal digit. -/
def isHexDigit (c : Char) : Bool :=
  (hexValue? c).isSome

def numberIn (radix : Nat) (digits : List Char) : Nat :=
  digits.foldl (fun n c => radix * n + (hexValue? c).getD 0) 0

/-- The number that exactly `n` hexadecimal digits spell. -/
def hexCode? (n : Nat) (digits : List Char) : Option Nat :=
  if digits.length = n ∧ digits.all isHexDigit then some (numberIn 16 digits) else none

/-- The number written with exactly `n` decimal digits that start here, and the text after it. -/
def fixedDigits? (n : Nat) (cs : List Char) : Option (Nat × List Char) :=
  let digits := cs.take n
  if digits.length = n ∧ digits.all Char.isDigit then some (numberIn 10 digits, cs.drop n)
  else none

def after? (c : Char) : List Char → Option (List Char)
  | d :: rest => if d = c then some rest else none
  | [] => none

end Text

end ImportCycles
