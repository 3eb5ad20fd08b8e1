import ImportCycles.Report.Json
import ImportCycles.Text.Digits

namespace ImportCycles

namespace Json

/-- The UTF-16 units of a character: its code, or a pair of surrogates. -/
def utf16 (c : Char) : List Nat :=
  if c.toNat < 65536 then [c.toNat]
  else [55296 + (c.toNat - 65536) / 1024, 56320 + (c.toNat - 65536) % 1024]

def IsHighSurrogate (unit : Nat) : Prop := 55296 ≤ unit ∧ unit < 56320

instance (unit : Nat) : Decidable (IsHighSurrogate unit) :=
  inferInstanceAs (Decidable (_ ∧ _))

def IsLowSurrogate (unit : Nat) : Prop := 56320 ≤ unit ∧ unit < 57344

instance (unit : Nat) : Decidable (IsLowSurrogate unit) :=
  inferInstanceAs (Decidable (_ ∧ _))

/-- The characters that units stand for. A surrogate without its partner stands for none. -/
def charsOf? : List Nat → Option (List Char)
  | [] => some []
  | [unit] =>
    if IsHighSurrogate unit ∨ IsLowSurrogate unit then none else some [Char.ofNat unit]
  | unit :: next :: rest =>
    if IsHighSurrogate unit ∧ IsLowSurrogate next then
      (charsOf? rest).map (Char.ofNat (65536 + (unit - 55296) * 1024 + (next - 56320)) :: ·)
    else if IsHighSurrogate unit ∨ IsLowSurrogate unit then none
    else (charsOf? (next :: rest)).map (Char.ofNat unit :: ·)

/-- The character that a backslash and a letter or mark stand for. -/
def shortEscape? : Char → Option Char
  | '"' => some '"'
  | '\\' => some '\\'
  | '/' => some '/'
  | 'b' => some (Char.ofNat 8)
  | 'f' => some (Char.ofNat 12)
  | 'n' => some '\n'
  | 'r' => some '\r'
  | 't' => some '\t'
  | _ => none

/-- Units put before those that are read already. -/
def before (units : List Nat) (read : List Nat × List Char) : List Nat × List Char :=
  (units ++ read.1, read.2)

/-- The units of a literal whose opening quote is read, and the text behind its closing quote.
    Control characters must not stand in a literal. -/
def units? : List Char → Option (List Nat × List Char)
  | [] => none
  | '"' :: rest => some ([], rest)
  | '\\' :: 'u' :: a :: b :: c :: d :: rest =>
    (Text.hexCode? 4 [a, b, c, d]).bind fun unit => (units? rest).map (before [unit])
  | '\\' :: c :: rest =>
    (shortEscape? c).bind fun meant => (units? rest).map (before (utf16 meant))
  | c :: rest =>
    if c.toNat < 32 then none else (units? rest).map (before (utf16 c))

/-- A literal whose opening quote is read, and the text behind it. -/
def literal? (text : List Char) : Option (String × List Char) :=
  (units? text).bind fun (units, after) =>
    (charsOf? units).map fun chars => (String.ofList chars, after)

theorem exists_of_map_before {read : Option (List Nat × List Char)} {more units : List Nat}
    {after : List Char} (hread : read.map (before more) = some (units, after)) :
    ∃ others, read = some (others, after) := by
  obtain ⟨⟨others, rest⟩, rfl, heq⟩ := Option.map_eq_some_iff.mp hread
  exact ⟨others, by rw [← (Prod.mk.inj heq).2]⟩

theorem length_lt_of_units? {text after : List Char} {units : List Nat}
    (hread : units? text = some (units, after)) : after.length < text.length := by
  fun_induction units? text generalizing units with
  | case1 => cases hread
  | case2 rest =>
    cases hread
    exact Nat.lt_succ_self _
  | case3 a b c d rest ih =>
    obtain ⟨_, -, hread⟩ := Option.bind_eq_some_iff.mp hread
    obtain ⟨_, hmore⟩ := exists_of_map_before hread
    exact Nat.lt_trans (ih hmore) (by simp only [List.length_cons]; omega)
  | case4 c rest _ ih =>
    obtain ⟨_, -, hread⟩ := Option.bind_eq_some_iff.mp hread
    obtain ⟨_, hmore⟩ := exists_of_map_before hread
    exact Nat.lt_trans (ih hmore) (by simp only [List.length_cons]; omega)
  | case5 => cases hread
  | case6 c rest _ _ _ _ ih =>
    obtain ⟨_, hmore⟩ := exists_of_map_before hread
    exact Nat.lt_trans (ih hmore) (Nat.lt_succ_self _)

theorem length_lt_of_literal? {text after : List Char} {s : String}
    (hread : literal? text = some (s, after)) : after.length < text.length := by
  simp only [literal?, Option.bind_eq_some_iff, Option.map_eq_some_iff] at hread
  obtain ⟨⟨units, rest⟩, hunits, chars, -, heq⟩ := hread
  cases heq
  exact length_lt_of_units? hunits

section Written

variable {n : Nat}

theorem hexValue?_hexDigit (hn : n < 16) : Text.hexValue? (hexDigit n) = some n := by
  have hall : ∀ d : Fin 16, Text.hexValue? (hexDigit d) = some d.val := by decide
  exact hall ⟨n, hn⟩

theorem hexCode?_unitEscape (hn : n < 65536) :
    Text.hexCode? 4 [hexDigit (n / 4096 % 16), hexDigit (n / 256 % 16), hexDigit (n / 16 % 16),
      hexDigit (n % 16)] = some n := by
  have hdigit : ∀ m, Text.hexValue? (hexDigit (m % 16)) = some (m % 16) := fun m =>
    hexValue?_hexDigit (Nat.mod_lt m (by decide))
  have hvalid : ∀ m, Text.isHexDigit (hexDigit (m % 16)) = true := fun m => by
    rw [Text.isHexDigit, hdigit, Option.isSome_some]
  rw [Text.hexCode?, if_pos ⟨rfl, by simp [hvalid]⟩]
  simp only [Text.numberIn, List.foldl_cons, List.foldl_nil, hdigit, Option.getD_some]
  congr 1
  omega

theorem units?_unitEscape (hn : n < 65536) (rest : List Char) :
    units? (unitEscape n ++ rest) = (units? rest).map (before [n]) := by
  rw [unitEscape]
  simp only [List.cons_append, List.nil_append, units?, hexCode?_unitEscape hn, Option.bind_some]

theorem units?_shortEscape {c meant : Char} (hmeant : shortEscape? c = some meant)
    (rest : List Char) :
    units? ('\\' :: c :: rest) = (units? rest).map (before (utf16 meant)) := by
  have hletter : c ≠ 'u' := by
    rintro rfl
    cases hmeant
  rw [units?]
  · rw [hmeant, Option.bind_some]
  · rintro _ _ _ _ _ rfl
    exact absurd rfl hletter

theorem units?_plain {c : Char} (hquote : c ≠ '"') (hslash : c ≠ '\\') (hplain : 32 ≤ c.toNat)
    (rest : List Char) : units? (c :: rest) = (units? rest).map (before (utf16 c)) := by
  rw [units?]
  · rw [if_neg (by omega)]
  · exact hquote
  · exact fun _ _ _ _ _ h => absurd h hslash
  · exact fun _ _ h => absurd h hslash

theorem utf16_of_lt {c : Char} (hc : c.toNat < 65536) : utf16 c = [c.toNat] :=
  if_pos hc

/-- The codes of surrogates are not characters. -/
theorem toNat_valid (c : Char) : c.toNat < 55296 ∨ 57343 < c.toNat ∧ c.toNat < 1114112 :=
  c.valid

/-- The ways in which a text can spell a character. -/
inductive Spells (c : Char) : List Char → Prop where
  | short {letter : Char} (hmeant : shortEscape? letter = some c) : Spells c ['\\', letter]
  | plain (hquote : c ≠ '"') (hslash : c ≠ '\\') (hgraphic : 32 ≤ c.toNat ∧ c.toNat < 127) :
    Spells c [c]
  | unit (hbasic : c.toNat < 65536) : Spells c (unitEscape c.toNat)
  | pair (hbeyond : 65536 ≤ c.toNat) :
    Spells c (unitEscape (55296 + (c.toNat - 65536) / 1024) ++
      unitEscape (56320 + (c.toNat - 65536) % 1024))

theorem spells_escape (c : Char) : Spells c (escape c) := by
  have hcode : ∀ n, c.toNat = n → c = Char.ofNat n := fun n h => by rw [← h, Char.ofNat_toNat]
  unfold escape
  split
  case isTrue hquote =>
    subst hquote
    exact .short rfl
  rename_i hquote
  split
  case isTrue hslash =>
    subst hslash
    exact .short rfl
  rename_i hslash
  split
  case isTrue hline =>
    subst hline
    exact .short rfl
  split
  case isTrue hreturn =>
    subst hreturn
    exact .short rfl
  split
  case isTrue htab =>
    subst htab
    exact .short rfl
  split
  case isTrue hback => exact .short (hcode 8 hback ▸ rfl)
  split
  case isTrue hfeed => exact .short (hcode 12 hfeed ▸ rfl)
  split
  case isTrue hgraphic => exact .plain hquote hslash hgraphic
  split
  case isTrue hbasic => exact .unit hbasic
  case isFalse hbasic => exact .pair (by omega)

theorem units?_escape (c : Char) (rest : List Char) :
    units? (escape c ++ rest) = (units? rest).map (before (utf16 c)) := by
  have hvalid := toNat_valid c
  have hspells := spells_escape c
  generalize escape c = text at hspells
  cases hspells with
  | short hmeant => exact units?_shortEscape hmeant rest
  | plain hquote hslash hgraphic => exact units?_plain hquote hslash hgraphic.1 rest
  | unit hbasic => rw [utf16_of_lt hbasic, units?_unitEscape hbasic]
  | pair hbeyond =>
    rw [List.append_assoc, units?_unitEscape (by omega), units?_unitEscape (by omega), utf16,
      if_neg (by omega), Option.map_map]
    rfl

/-- The text of a string reads back as its units. -/
theorem units?_flatMap_escape (chars rest : List Char) :
    units? (chars.flatMap escape ++ '"' :: rest) = some (chars.flatMap utf16, rest) := by
  induction chars with
  | nil => rfl
  | cons c chars ih =>
    rw [List.flatMap_cons, List.append_assoc, units?_escape, ih]
    rfl

theorem charsOf?_utf16 (c : Char) (units : List Nat) :
    charsOf? (utf16 c ++ units) = (charsOf? units).map (c :: ·) := by
  have hvalid := toNat_valid c
  by_cases hbasic : c.toNat < 65536
  · have hhigh : ¬ IsHighSurrogate c.toNat := by rw [IsHighSurrogate]; omega
    have hlow : ¬ IsLowSurrogate c.toNat := by rw [IsLowSurrogate]; omega
    rw [utf16_of_lt hbasic, List.singleton_append]
    cases units with
    | nil => simp [charsOf?, hhigh, hlow]
    | cons next rest => simp [charsOf?, hhigh, hlow]
  · have hhigh : IsHighSurrogate (55296 + (c.toNat - 65536) / 1024) := by
      rw [IsHighSurrogate]; omega
    have hlow : IsLowSurrogate (56320 + (c.toNat - 65536) % 1024) := by
      rw [IsLowSurrogate]; omega
    have hcode : 65536 + (55296 + (c.toNat - 65536) / 1024 - 55296) * 1024 +
        (56320 + (c.toNat - 65536) % 1024 - 56320) = c.toNat := by omega
    rw [utf16, if_neg hbasic, List.cons_append, List.singleton_append, charsOf?,
      if_pos ⟨hhigh, hlow⟩, hcode, Char.ofNat_toNat]

/-- The units of a string make up its characters. -/
theorem charsOf?_flatMap_utf16 (chars : List Char) :
    charsOf? (chars.flatMap utf16) = some chars := by
  induction chars with
  | nil => rfl
  | cons c chars ih => rw [List.flatMap_cons, charsOf?_utf16, ih, Option.map_some]

theorem literal?_escape (s : String) (rest : List Char) :
    literal? (s.toList.flatMap escape ++ '"' :: rest) = some (s, rest) := by
  rw [literal?, units?_flatMap_escape, Option.bind_some]
  simp only [charsOf?_flatMap_utf16, Option.map_some, String.ofList_toList]

/-- Text of which every character is ASCII. -/
def IsAscii (text : List Char) : Prop :=
  ∀ c ∈ text, c.toNat < 128

instance (text : List Char) : Decidable (IsAscii text) :=
  List.decidableBAll (fun c : Char => c.toNat < 128) text

theorem IsAscii.append {text more : List Char} (htext : IsAscii text) (hmore : IsAscii more) :
    IsAscii (text ++ more) :=
  List.forall_mem_append.mpr ⟨htext, hmore⟩

theorem isAscii_unitEscape (n : Nat) : IsAscii (unitEscape n) := by
  have hall : ∀ d : Fin 16, (hexDigit d).toNat < 128 := by decide
  have hdigit : ∀ m, (hexDigit (m % 16)).toNat < 128 := fun m =>
    hall ⟨m % 16, Nat.mod_lt m (by decide)⟩
  simp only [IsAscii, unitEscape, List.forall_mem_cons, hdigit, true_and]
  exact ⟨by decide, by decide, nofun⟩

theorem toNat_lt_of_shortEscape? {letter c : Char} (hmeant : shortEscape? letter = some c) :
    letter.toNat < 128 := by
  unfold shortEscape? at hmeant
  split at hmeant
  case h_9 => cases hmeant
  all_goals decide

theorem isAscii_escape (c : Char) : IsAscii (escape c) := by
  have hspells := spells_escape c
  generalize escape c = text at hspells
  cases hspells with
  | short hmeant =>
    exact List.forall_mem_cons.mpr ⟨by decide,
      List.forall_mem_singleton.mpr (toNat_lt_of_shortEscape? hmeant)⟩
  | plain hquote hslash hgraphic => exact List.forall_mem_singleton.mpr (by omega)
  | unit => exact isAscii_unitEscape _
  | pair => exact (isAscii_unitEscape _).append (isAscii_unitEscape _)

theorem isAscii_quoted (s : String) : IsAscii (quoted s) := by
  have hchars : IsAscii (s.toList.flatMap escape) :=
    List.forall_mem_flatMap.mpr fun c _ => isAscii_escape c
  exact List.forall_mem_cons.mpr ⟨by decide, hchars.append (by decide)⟩

end Written

end Json

end ImportCycles
