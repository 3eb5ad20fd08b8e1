import ImportCycles.Text.Utf8

namespace ImportCycles

namespace Utf8

/-- What decoding keeps to: the bytes it takes for the next part of a character are no ASCII. -/
def State.Sound : State → Prop
  | .start => True
  | .within _ _ low _ => 0x80 ≤ low

variable {state : State} {b : UInt8}

theorem lead_of_ascii (hb : b.toNat < 0x80) : lead b.toNat = .ascii (Char.ofNat b.toNat) := by
  rw [lead, if_pos hb]

theorem low_of_lead {n more bits low high : Nat} (hlead : lead n = .opens more bits low high) :
    0x80 ≤ low := by
  unfold lead at hlead
  grind

/-- A byte that does not continue a character marks it as ill-formed and begins anew. -/
theorem decodeFrom_of_outside {owed bits low high : Nat}
    (houtside : ¬ (low ≤ b.toNat ∧ b.toNat ≤ high)) (more : List UInt8) :
    decodeFrom (.within owed bits low high) (b :: more) =
      none :: decodeFrom .start (b :: more) := by
  rw [decodeFrom, decodeFrom, if_neg houtside]
  cases lead b.toNat <;> rfl

/-- What a byte does at the start of a character: it adds some characters and leads to a state. -/
theorem decodeFrom_start_cons (b : UInt8) :
    ∃ chars next, State.Sound next ∧
      ∀ more, decodeFrom .start (b :: more) = chars ++ decodeFrom next more := by
  cases hlead : lead b.toNat with
  | ascii c => exact ⟨[some c], .start, trivial, fun more => by simp [decodeFrom, hlead]⟩
  | opens owed bits low high =>
    exact ⟨[], .within owed bits low high, low_of_lead hlead, fun more => by
      simp [decodeFrom, hlead]⟩
  | stray => exact ⟨[none], .start, trivial, fun more => by simp [decodeFrom, hlead]⟩

theorem decodeFrom_cons (state : State) (b : UInt8) :
    ∃ chars next, State.Sound next ∧
      ∀ more, decodeFrom state (b :: more) = chars ++ decodeFrom next more := by
  obtain ⟨chars, next, hnext, hbegin⟩ := decodeFrom_start_cons b
  cases state with
  | start => exact ⟨chars, next, hnext, hbegin⟩
  | within owed bits low high =>
    by_cases hinside : low ≤ b.toNat ∧ b.toNat ≤ high
    · by_cases howed : owed ≤ 1
      · refine ⟨[some (Char.ofNat (64 * bits + (b.toNat - 0x80)))], .start, trivial, fun more => ?_⟩
        simp only [decodeFrom, if_pos hinside, if_pos howed, List.singleton_append]
      · refine ⟨[], .within (owed - 1) (64 * bits + (b.toNat - 0x80)) 0x80 0xBF, Nat.le_refl 0x80,
          fun more => ?_⟩
        simp only [decodeFrom, if_pos hinside, if_neg howed, List.nil_append]
    · exact ⟨none :: chars, next, hnext, fun more => by
        rw [decodeFrom_of_outside hinside, hbegin, List.cons_append]⟩

/-- The text up to an ASCII byte, and after it a fresh start. -/
theorem decodeFrom_ascii (hb : b.toNat < 0x80) (hsound : state.Sound) (before : List UInt8) :
    ∃ chars, ∀ more, decodeFrom state (before ++ b :: more) =
      chars ++ some (Char.ofNat b.toNat) :: decodeFrom .start more := by
  have hstart : ∀ more, decodeFrom .start (b :: more) =
      some (Char.ofNat b.toNat) :: decodeFrom .start more := fun more => by
    rw [decodeFrom, lead_of_ascii hb]
  induction before generalizing state with
  | nil =>
    cases state with
    | start => exact ⟨[], hstart⟩
    | within owed bits low high =>
      have houtside : ¬ (low ≤ b.toNat ∧ b.toNat ≤ high) := by
        have hlow : 0x80 ≤ low := hsound
        omega
      exact ⟨[none], fun more => by
        rw [List.nil_append, decodeFrom_of_outside houtside, hstart, List.singleton_append]⟩
  | cons first rest ih =>
    obtain ⟨chars, next, hnext, hstep⟩ := decodeFrom_cons state first
    obtain ⟨others, hrest⟩ := ih hnext
    exact ⟨chars ++ others, fun more => by
      rw [List.cons_append, hstep, hrest, List.append_assoc]⟩

theorem decodeLossy_ascii (hb : b.toNat < 0x80) (before : List UInt8) :
    ∃ chars, ∀ more, decodeLossy (before ++ b :: more) =
      chars ++ Char.ofNat b.toNat :: decodeLossy more := by
  obtain ⟨chars, hchars⟩ := @decodeFrom_ascii .start b hb trivial before
  exact ⟨chars.map (·.getD (Char.ofNat 0xFFFD)), fun more => by
    rw [decodeLossy, hchars, List.map_append, List.map_cons, Option.getD_some, decodeLossy]⟩

/-- The bytes of an array are listed one by one, from the first on. -/
theorem toList_loop (bytes : ByteArray) (i : Nat) (listed : List UInt8) :
    ByteArray.toList.loop bytes i listed = listed.reverse ++ bytes.data.toList.drop i := by
  fun_induction ByteArray.toList.loop bytes i listed with
  | case1 i listed hlt ih =>
    have hdata : i < bytes.data.toList.length := by simpa using hlt
    have hget : bytes.get! i = bytes.data.toList[i] := by
      simp [ByteArray.get!, getElem!_pos bytes.data i (by simpa using hdata)]
    rw [ih, List.reverse_cons, List.append_assoc, List.singleton_append, hget,
      ← List.drop_eq_getElem_cons hdata]
  | case2 i listed hend =>
    rw [List.drop_eq_nil_of_le (by simpa using hend), List.append_nil]

theorem encode_eq (s : String) : encode s = s.toList.flatMap String.utf8EncodeChar := by
  have hbytes : s.toByteArray = (s.toList.flatMap String.utf8EncodeChar).toByteArray := by
    rw [← String.utf8Encode_toList]
    rfl
  rw [encode, String.toUTF8, hbytes, ByteArray.toList, toList_loop]
  simp only [List.reverse_nil, List.nil_append, List.drop_zero, List.toList_data_toByteArray]

theorem lead_two {n : Nat} (hlow : 0xC2 ≤ n) (hhigh : n < 0xE0) :
    lead n = .opens 1 (n - 0xC0) 0x80 0xBF := by
  unfold lead
  grind

theorem lead_three {n : Nat} (hlow : 0xE0 ≤ n) (hhigh : n < 0xF0) :
    lead n = .opens 2 (n - 0xE0) (if n = 0xE0 then 0xA0 else 0x80)
      (if n = 0xED then 0x9F else 0xBF) := by
  unfold lead
  grind

theorem lead_four {n : Nat} (hlow : 0xF0 ≤ n) (hhigh : n ≤ 0xF4) :
    lead n = .opens 3 (n - 0xF0) (if n = 0xF0 then 0x90 else 0x80)
      (if n = 0xF4 then 0x8F else 0xBF) := by
  unfold lead
  grind

variable {owed bits low high n : Nat}

theorem decodeFrom_opens (hn : n < 0x100) (hlead : lead n = .opens owed bits low high)
    (more : List UInt8) :
    decodeFrom .start (UInt8.ofNat n :: more) = decodeFrom (.within owed bits low high) more := by
  rw [decodeFrom, UInt8.toNat_ofNat_of_lt' hn, hlead]

/-- A byte inside a character adds six bits to it. -/
theorem decodeFrom_within (howed : 1 < owed) (hn : n < 0x40) (hlow : low ≤ n + 0x80)
    (hhigh : n + 0x80 ≤ high) (more : List UInt8) :
    decodeFrom (.within owed bits low high) (UInt8.ofNat (n + 0x80) :: more) =
      decodeFrom (.within (owed - 1) (64 * bits + n) 0x80 0xBF) more := by
  rw [decodeFrom, UInt8.toNat_ofNat_of_lt' (show n + 0x80 < 0x100 by omega), if_pos ⟨hlow, hhigh⟩,
    if_neg (by omega), Nat.add_sub_cancel]

/-- So does its last byte, and then the character is there. -/
theorem decodeFrom_last (hn : n < 0x40) (hlow : low ≤ n + 0x80) (hhigh : n + 0x80 ≤ high)
    (more : List UInt8) :
    decodeFrom (.within 1 bits low high) (UInt8.ofNat (n + 0x80) :: more) =
      some (Char.ofNat (64 * bits + n)) :: decodeFrom .start more := by
  rw [decodeFrom, UInt8.toNat_ofNat_of_lt' (show n + 0x80 < 0x100 by omega), if_pos ⟨hlow, hhigh⟩,
    if_pos (Nat.le_refl 1), Nat.add_sub_cancel]

/-- The bytes of a character are read back as this character, whatever comes after them. -/
theorem decodeFrom_utf8EncodeChar (c : Char) (more : List UInt8) :
    decodeFrom .start (String.utf8EncodeChar c ++ more) = some c :: decodeFrom .start more := by
  have hvalid : c.val.toNat < 0xD800 ∨ 0xDFFF < c.val.toNat ∧ c.val.toNat < 0x110000 := c.valid
  have hchar : Char.ofNat c.val.toNat = c := Char.ofNat_toNat c
  unfold String.utf8EncodeChar
  generalize c.val.toNat = n at *
  dsimp only
  -- One case for each number of bytes. The bounds of a second byte leave out only code points that
  -- need fewer bytes, surrogates, and those beyond the last plane.
  split
  · have hlead : lead n = .ascii (Char.ofNat n) := if_pos (by omega)
    rw [List.singleton_append, decodeFrom, UInt8.toNat_ofNat_of_lt' (show n < 0x100 by omega),
      hlead, hchar]
  · split
    · have hlead := @lead_two (n / 64 % 32 + 0xC0) (by omega) (by omega)
      have hbits : 64 * (n / 64 % 32 + 0xC0 - 0xC0) + n % 64 = n := by omega
      rw [List.cons_append, List.singleton_append, decodeFrom_opens (by omega) hlead,
        decodeFrom_last (by omega) (by omega) (by omega), hbits, hchar]
    · split
      · have hlead := @lead_three (n / 4096 % 16 + 0xE0) (by omega) (by omega)
        have hlow : (if n / 4096 % 16 + 0xE0 = 0xE0 then 0xA0 else 0x80) ≤ n / 64 % 64 + 0x80 := by
          split <;> omega
        have hhigh : n / 64 % 64 + 0x80 ≤ (if n / 4096 % 16 + 0xE0 = 0xED then 0x9F else 0xBF) := by
          split <;> omega
        have hbits : 64 * (64 * (n / 4096 % 16 + 0xE0 - 0xE0) + n / 64 % 64) + n % 64 = n := by omega
        rw [List.cons_append, List.cons_append, List.singleton_append,
          decodeFrom_opens (by omega) hlead, decodeFrom_within (by omega) (by omega) hlow hhigh,
          decodeFrom_last (by omega) (by omega) (by omega), hbits, hchar]
      · have hlead := @lead_four (n / 262144 % 8 + 0xF0) (by omega) (by omega)
        have hlow : (if n / 262144 % 8 + 0xF0 = 0xF0 then 0x90 else 0x80) ≤
            n / 4096 % 64 + 0x80 := by
          split <;> omega
        have hhigh : n / 4096 % 64 + 0x80 ≤
            (if n / 262144 % 8 + 0xF0 = 0xF4 then 0x8F else 0xBF) := by
          split <;> omega
        have hbits : 64 * (64 * (64 * (n / 262144 % 8 + 0xF0 - 0xF0) + n / 4096 % 64) +
            n / 64 % 64) + n % 64 = n := by omega
        rw [List.cons_append, List.cons_append, List.cons_append, List.singleton_append,
          decodeFrom_opens (by omega) hlead, decodeFrom_within (by omega) (by omega) hlow hhigh,
          decodeFrom_within (by omega) (by omega) (by omega) (by omega),
          decodeFrom_last (by omega) (by omega) (by omega), hbits, hchar]

theorem decodeFrom_encode (s : String) (more : List UInt8) :
    decodeFrom .start (encode s ++ more) = s.toList.map some ++ decodeFrom .start more := by
  rw [encode_eq]
  induction s.toList with
  | nil => rfl
  | cons c rest ih =>
    rw [List.flatMap_cons, List.append_assoc, decodeFrom_utf8EncodeChar, ih, List.map_cons,
      List.cons_append]

/-- There is a flaw just where some stretch is no character. -/
theorem flawFrom_eq_none_iff {position : Nat} {begun bytes : List UInt8} :
    flawFrom state position begun bytes = none ↔ none ∉ decodeFrom state bytes := by
  induction bytes generalizing state position begun with
  | nil => cases state <;> simp [flawFrom, decodeFrom]
  | cons b rest ih =>
    cases state with
    | start => cases hlead : lead b.toNat <;> simp [flawFrom, decodeFrom, hlead, ih]
    | within owed bits low high =>
      by_cases hinside : low ≤ b.toNat ∧ b.toNat ≤ high
      · by_cases howed : owed ≤ 1 <;> simp [flawFrom, decodeFrom, hinside, howed, ih]
      · simp [flawFrom, decodeFrom_of_outside hinside, hinside]

/-- What was encoded is well-formed, and decodes as itself. -/
theorem decode_encode (s : String) : decode (encode s) = .ok s.toList := by
  have hdecode := decodeFrom_encode s []
  rw [List.append_nil, decodeFrom, List.append_nil] at hdecode
  have hflawless : flawFrom .start 0 [] (encode s) = none :=
    flawFrom_eq_none_iff.mpr (by simp [hdecode])
  simp [decode, hflawless, decodeLossy, hdecode, Function.comp_def]

end Utf8

end ImportCycles
