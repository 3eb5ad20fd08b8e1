namespace ImportCycles

namespace Text

/-- The characters that stand for six bits each. -/
def isBase64Digit (c : Char) : Bool :=
  c.isAlphanum || c == '+' || c == '/'

/-- Whether the rest of a text completes its groups, after some characters of the last group and
    some signs of padding. What stands after enough padding does not count. -/
def completesGroups (filled pads : Nat) : List Char → Bool
  | [] => filled == 0
  | c :: rest =>
    if c = '=' then
      if filled < 2 then completesGroups filled pads rest
      else if 4 ≤ filled + pads + 1 then true
      else completesGroups filled (pads + 1) rest
    else if isBase64Digit c then
      completesGroups ((filled + 1) % 4) 0 rest
    else
      completesGroups filled pads rest

/-- Whether a text holds bytes in Base 64: four characters stand for three bytes, and padding fills
    the last group. Characters that are none of the alphabet do not count. -/
def isBase64 (cs : List Char) : Bool :=
  cs.all (·.toNat < 128) && completesGroups 0 0 cs

end Text

end ImportCycles
