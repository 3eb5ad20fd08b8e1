namespace ImportCycles

namespace Text

def isBlank (c : Char) : Bool :=
  let n := c.toNat
  (9 ≤ n && n ≤ 13) || (28 ≤ n && n ≤ 32) || n == 0x85 || n == 0xA0 || n == 0x1680 ||
    (0x2000 ≤ n && n ≤ 0x200A) || n == 0x2028 || n == 0x2029 || n == 0x202F || n == 0x205F ||
    n == 0x3000

def isLineBreak (c : Char) : Bool :=
  let n := c.toNat
  (10 ≤ n && n ≤ 13) || (28 ≤ n && n ≤ 30) || n == 0x85 || n == 0x2028 || n == 0x2029

/-- The text without the characters of a class at its end. -/
def trimEndBy (p : Char → Bool) (cs : List Char) : List Char :=
  (cs.reverse.dropWhile p).reverse

/-- The text without the characters of a class at both ends. -/
def trimBy (p : Char → Bool) (cs : List Char) : List Char :=
  trimEndBy p (cs.dropWhile p)

def trim (cs : List Char) : List Char :=
  trimBy isBlank cs

/-- Whether a text starts with the characters of another. -/
def startsWith (cs start : List Char) : Bool :=
  start.isPrefixOf cs

/-- Put a character in front of the first line. -/
def pushFront (c : Char) : List (List Char) → List (List Char)
  | [] => [[c]]
  | line :: lines => (c :: line) :: lines

/-- The lines of a text, without what ends them. A carriage return with a line feed after it ends
    one line, not two. A text that ends with a line break has no empty line after it. -/
def lines : List Char → List (List Char)
  | [] => []
  | '\r' :: '\n' :: rest => [] :: lines rest
  | c :: rest => if isLineBreak c then [] :: lines rest else pushFront c (lines rest)

/-- The lines of a text that only line feeds end. -/
def feedLines : List Char → List (List Char)
  | [] => []
  | c :: rest => if c = '\n' then [] :: feedLines rest else pushFront c (feedLines rest)

/-- Write every carriage return, alone or before a line feed, as a line feed. -/
def unifyBreaks : List Char → List Char
  | [] => []
  | '\r' :: '\n' :: rest => '\n' :: unifyBreaks rest
  | '\r' :: rest => '\n' :: unifyBreaks rest
  | c :: rest => c :: unifyBreaks rest

end Text

end ImportCycles
