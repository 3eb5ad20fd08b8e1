import ImportCycles.Text.Quoted

namespace ImportCycles

namespace Utf8

/-- What decoding waits for: a first byte, or `more` bytes of a character whose bits so far are
    `bits`, the next of them between `low` and `high`. -/
inductive State where
  | start
  | within (more bits low high : Nat)
  deriving Repr, DecidableEq

/-- What a first byte begins. -/
inductive Lead where
  | ascii (c : Char)
  | opens (more bits low high : Nat)
  | stray
  deriving Repr, DecidableEq

/-- The meaning of a first byte. The bounds of the second byte shut out overlong forms, surrogates
    and code points beyond the last plane. -/
def lead (b : Nat) : Lead :=
  if b < 0x80 then .ascii (Char.ofNat b)
  else if b < 0xC2 then .stray
  else if b < 0xE0 then .opens 1 (b - 0xC0) 0x80 0xBF
  else if b = 0xE0 then .opens 2 0 0xA0 0xBF
  else if b = 0xED then .opens 2 13 0x80 0x9F
  else if b < 0xF0 then .opens 2 (b - 0xE0) 0x80 0xBF
  else if b = 0xF0 then .opens 3 0 0x90 0xBF
  else if b < 0xF4 then .opens 3 (b - 0xF0) 0x80 0xBF
  else if b = 0xF4 then .opens 3 4 0x80 0x8F
  else .stray

/-- The characters from a state on, each ill-formed stretch as a missing character. A stretch ends
    before the first byte that cannot continue the character begun. -/
def decodeFrom : State → List UInt8 → List (Option Char)
  | .start, [] => []
  | .within .., [] => [none]
  | .start, b :: rest =>
    match lead b.toNat with
    | .ascii c => some c :: decodeFrom .start rest
    | .opens more bits low high => decodeFrom (.within more bits low high) rest
    | .stray => none :: decodeFrom .start rest
  | .within more bits low high, b :: rest =>
    if low ≤ b.toNat ∧ b.toNat ≤ high then
      let bits := 64 * bits + (b.toNat - 0x80)
      if more ≤ 1 then
        some (Char.ofNat bits) :: decodeFrom .start rest
      else
        decodeFrom (.within (more - 1) bits 0x80 0xBF) rest
    else
      match lead b.toNat with
      | .ascii c => none :: some c :: decodeFrom .start rest
      | .opens more bits low high => none :: decodeFrom (.within more bits low high) rest
      | .stray => none :: none :: decodeFrom .start rest

/-- The text of some bytes, with a replacement character for each ill-formed stretch. -/
def decodeLossy (bytes : List UInt8) : List Char :=
  (decodeFrom .start bytes).map (·.getD (Char.ofNat 0xFFFD))

/-- Where bytes are ill-formed: the bytes of a stretch that is no character, from its position on,
    and what is wrong with them. -/
structure Flaw where
  position : Nat
  bytes : List UInt8
  reason : String
  deriving Repr, DecidableEq

def Flaw.message (flaw : Flaw) : String :=
  let first := toString flaw.position
  let place := match flaw.bytes with
    | [b] => "byte 0x" ++ String.ofList (Text.hex 2 b.toNat) ++ " in position " ++ first
    | bytes =>
      "bytes in position " ++ first ++ "-" ++ toString (flaw.position + bytes.length - 1)
  "\x27utf-8\x27 codec can\x27t decode " ++ place ++ ": " ++ flaw.reason

/-- The first flaw from a state on. `begun` are the bytes so far of the character that begins at
    `position`. -/
def flawFrom : State → (position : Nat) → (begun : List UInt8) → List UInt8 → Option Flaw
  | .start, _, _, [] => none
  | .within .., position, begun, [] =>
    some { position, bytes := begun, reason := "unexpected end of data" }
  | .start, position, _, b :: rest =>
    match lead b.toNat with
    | .ascii _ => flawFrom .start (position + 1) [] rest
    | .opens more bits low high => flawFrom (.within more bits low high) position [b] rest
    | .stray => some { position, bytes := [b], reason := "invalid start byte" }
  | .within more bits low high, position, begun, b :: rest =>
    if low ≤ b.toNat ∧ b.toNat ≤ high then
      if more ≤ 1 then
        flawFrom .start (position + begun.length + 1) [] rest
      else
        flawFrom (.within (more - 1) (64 * bits + (b.toNat - 0x80)) 0x80 0xBF) position
          (begun ++ [b]) rest
    else
      some { position, bytes := begun, reason := "invalid continuation byte" }

/-- The text of some bytes, or their first flaw. -/
def decode (bytes : List UInt8) : Except Flaw (List Char) :=
  match flawFrom .start 0 [] bytes with
  | none => .ok (decodeLossy bytes)
  | some flaw => .error flaw

def encode (s : String) : List UInt8 :=
  s.toUTF8.toList

end Utf8

end ImportCycles
