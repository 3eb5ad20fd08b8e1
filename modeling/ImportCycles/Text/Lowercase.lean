import ImportCycles.Text.CaseTable

namespace ImportCycles

namespace Text

/-- Whether a code point lies in one of the ranges. -/
def inRanges (ranges : List (Nat × Nat)) (c : Char) : Bool :=
  ranges.any fun (first, last) => first ≤ c.toNat && c.toNat ≤ last

/-- Whether a range gives the lower case of a code point. -/
def CaseRange.covers (r : CaseRange) (n : Nat) : Bool :=
  r.first ≤ n && n ≤ r.last && (n - r.first) % r.step == 0

/-- The lower case of a character by itself. A dotted capital I keeps its dot as a mark of its
    own. -/
def lowerChar (c : Char) : List Char :=
  if c = 'İ' then
    ['i', Char.ofNat 0x307]
  else
    match lowercaseRanges.find? (·.covers c.toNat) with
    | none => [c]
    | some range => [Char.ofNat (c.toNat + range.delta).toNat]

/-- Whether the nearest character that is not passed over is a cased letter. -/
def meetsCased (cs : List Char) : Bool :=
  match cs.dropWhile (inRanges caseIgnorableRanges) with
  | [] => false
  | c :: _ => inRanges casedRanges c

/-- The lower case of a text after the characters `before`, nearest first. A sigma is final after a
    cased letter and not before one. -/
def lowerAfter (before : List Char) : List Char → List Char
  | [] => []
  | c :: rest =>
    let lowered :=
      if c = 'Σ' then
        if meetsCased before && !meetsCased rest then ['ς'] else ['σ']
      else
        lowerChar c
    lowered ++ lowerAfter (c :: before) rest

def lower (s : String) : String :=
  String.ofList (lowerAfter [] s.toList)

end Text

end ImportCycles
