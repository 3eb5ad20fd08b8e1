import Mathlib.Data.List.TakeWhile
import ImportCycles.Proofs.Json.Literal

namespace ImportCycles

namespace Json

inductive Token where
  | openArray
  | closeArray
  | openObject
  | closeObject
  | comma
  | colon
  | null
  | bool (value : Bool)
  | number (lexeme : String)
  | string (value : String)
  deriving Repr, DecidableEq

def isBlank (c : Char) : Bool :=
  [' ', '\t', '\n', '\r'].contains c

/-- The text behind one or more digits. -/
def afterDigits? : List Char → Option (List Char)
  | [] => none
  | c :: rest => if c.isDigit then some (rest.dropWhile Char.isDigit) else none

/-- The text behind an integer, which has no leading zeros. -/
def afterInteger? : List Char → Option (List Char)
  | '0' :: rest => some rest
  | text => afterDigits? text

def afterFraction? : List Char → Option (List Char)
  | '.' :: rest => afterDigits? rest
  | text => some text

def afterExponent? : List Char → Option (List Char)
  | c :: rest =>
    if c = 'e' ∨ c = 'E' then
      match rest with
      | '+' :: digits => afterDigits? digits
      | '-' :: digits => afterDigits? digits
      | digits => afterDigits? digits
    else some (c :: rest)
  | [] => some []

def afterNumber? : List Char → Option (List Char)
  | '-' :: rest => afterInteger? rest >>= afterFraction? >>= afterExponent?
  | text => afterInteger? text >>= afterFraction? >>= afterExponent?

def isNumberChar (c : Char) : Bool :=
  c.isDigit || ['+', '-', '.', 'e', 'E'].contains c

/-- The token that text starts with, and the text behind it. A number goes on as long as it can. -/
def token? : List Char → Option (Token × List Char)
  | [] => none
  | '[' :: rest => some (.openArray, rest)
  | ']' :: rest => some (.closeArray, rest)
  | '{' :: rest => some (.openObject, rest)
  | '}' :: rest => some (.closeObject, rest)
  | ',' :: rest => some (.comma, rest)
  | ':' :: rest => some (.colon, rest)
  | 'n' :: 'u' :: 'l' :: 'l' :: rest => some (.null, rest)
  | 't' :: 'r' :: 'u' :: 'e' :: rest => some (.bool true, rest)
  | 'f' :: 'a' :: 'l' :: 's' :: 'e' :: rest => some (.bool false, rest)
  | '"' :: rest => (literal? rest).map fun (s, after) => (.string s, after)
  | c :: rest =>
    let lexeme := c :: rest.takeWhile isNumberChar
    if afterNumber? lexeme = some [] then
      some (.number (String.ofList lexeme), rest.dropWhile isNumberChar)
    else none

theorem length_lt_of_token? {text after : List Char} {token : Token}
    (hread : token? text = some (token, after)) : after.length < text.length := by
  unfold token? at hread
  split at hread
  case h_1 => cases hread
  case h_11 rest =>
    obtain ⟨⟨s, after⟩, hliteral, heq⟩ := Option.map_eq_some_iff.mp hread
    cases heq
    exact Nat.lt_succ_of_lt (length_lt_of_literal? hliteral)
  case h_12 c rest _ _ _ _ _ _ _ _ _ _ =>
    obtain ⟨-, heq⟩ := Option.ite_none_right_eq_some.mp hread
    cases heq
    exact Nat.lt_succ_of_le (List.dropWhile_sublist _).length_le
  all_goals
    cases hread
    simp only [List.length_cons]
    omega

/-- The tokens of a text, none if some part of it is not a token. -/
def tokens? : List Char → Option (List Token)
  | [] => some []
  | c :: rest =>
    if isBlank c then tokens? rest
    else
      match _hread : token? (c :: rest) with
      | none => none
      | some (token, after) => (tokens? after).map (token :: ·)
termination_by text => text.length
decreasing_by
  · exact Nat.lt_succ_self _
  · exact length_lt_of_token? _hread

/-- A piece of text that stands for given tokens, whatever follows it. -/
def Lexes (piece : List Char) (found : List Token) : Prop :=
  ∀ rest, tokens? (piece ++ rest) = (tokens? rest).map (found ++ ·)

section Lexes

variable {piece more : List Char} {found others : List Token} {token : Token}

theorem lexes_nil : Lexes [] [] := fun rest => by
  simp

theorem Lexes.append (hpiece : Lexes piece found) (hmore : Lexes more others) :
    Lexes (piece ++ more) (found ++ others) := fun rest => by
  rw [List.append_assoc, hpiece, hmore, Option.map_map]
  simp only [Function.comp_def, List.append_assoc]

theorem Lexes.tokens?_eq (hpiece : Lexes piece found) : tokens? piece = some found := by
  have hall := hpiece []
  rwa [List.append_nil, tokens?, Option.map_some, List.append_nil] at hall

theorem lexes_blanks (hblank : ∀ c ∈ piece, isBlank c = true) : Lexes piece [] := by
  intro rest
  induction piece with
  | nil => simp
  | cons c piece ih =>
    obtain ⟨hc, hpiece⟩ := List.forall_mem_cons.mp hblank
    rw [List.cons_append, tokens?, if_pos hc, ih hpiece]

theorem lexes_token {c : Char} (hstart : isBlank c = false)
    (htoken : ∀ rest, token? (c :: (piece ++ rest)) = some (token, rest)) :
    Lexes (c :: piece) [token] := by
  intro rest
  rw [List.cons_append, tokens?, if_neg (by simp [hstart])]
  split
  case h_1 hread => rw [htoken] at hread; cases hread
  case h_2 hread =>
    rw [htoken] at hread
    cases hread
    rfl

theorem lexes_quoted (s : String) : Lexes (quoted s) [.string s] := by
  have hquoted : quoted s = '"' :: (s.toList.flatMap escape ++ ['"']) := rfl
  rw [hquoted]
  refine lexes_token (by decide) fun rest => ?_
  rw [token?, List.append_assoc, List.singleton_append, literal?_escape, Option.map_some]

/-- Pieces with commas between them, however these are laid out. -/
theorem Lexes.intercalate {α : Type} {write : α → List Char} {found : α → List Token}
    {separator : List Char} {items : List α} (hseparator : Lexes separator [.comma])
    (hitems : ∀ item ∈ items, Lexes (write item) (found item)) :
    Lexes (separator.intercalate (items.map write))
      ([.comma].intercalate (items.map found)) := by
  induction items with
  | nil => exact lexes_nil
  | cons first rest ih =>
    obtain ⟨hfirst, hrest⟩ := List.forall_mem_cons.mp hitems
    cases rest with
    | nil => simpa using hfirst
    | cons second others =>
      simp only [List.map_cons, List.intercalate_cons_cons] at ih ⊢
      exact (hfirst.append hseparator).append (ih hrest)

end Lexes

end Json

end ImportCycles
