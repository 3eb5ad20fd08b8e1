import ImportCycles.Proofs.Report.Flowchart

namespace ImportCycles

namespace Report

variable {used names before after : List String} {base name id suffix : String} {n : Nat} {c : Char}

/-- The identifiers to be tried for a base, in order: the base itself, then `base_2`, `base_3`. -/
def candidate (base : String) : Nat → String
  | 0 => base
  | n + 1 => base ++ "_" ++ toString (n + 2)

theorem candidate_succ_ne (base : String) (n : Nat) : candidate base (n + 1) ≠ base := by
  intro heq
  have hlength := congrArg String.length heq
  have hmark : "_".length = 1 := rfl
  simp only [candidate, String.length_append, hmark] at hlength
  omega

theorem candidate_inj {m : Nat} (heq : candidate base m = candidate base n) : m = n := by
  cases m with
  | zero =>
    cases n with
    | zero => rfl
    | succ n => exact absurd heq.symm (candidate_succ_ne base n)
  | succ m =>
    cases n with
    | zero => exact absurd heq (candidate_succ_ne base m)
    | succ n =>
      have hnumber : m + 2 = n + 2 := numbered_inj heq
      omega

/-- Where all candidates before one are taken, as many identifiers are. -/
theorem le_length_of_taken (htaken : ∀ m < n, candidate base m ∈ used) : n ≤ used.length := by
  have hdistinct : ((List.range n).map (candidate base)).Nodup :=
    List.nodup_range.map fun _ _ => candidate_inj
  have hsubset : (List.range n).map (candidate base) ⊆ used := by
    intro taken hmem
    obtain ⟨m, hm, rfl⟩ := List.mem_map.mp hmem
    exact htaken m (List.mem_range.mp hm)
  simpa using (hdistinct.subperm hsubset).length_le

/-- The search goes through the numbers one by one and passes over those in use. -/
theorem exists_freshFrom (used : List String) (base : String) (tries n : Nat) :
    ∃ k, freshFrom used base tries (n + 2) = candidate base (n + k + 1) ∧
      ∀ m < k, candidate base (n + m + 1) ∈ used := by
  induction tries generalizing n with
  | zero => exact ⟨0, rfl, fun m hm => absurd hm (Nat.not_lt_zero m)⟩
  | succ tries ih =>
    rw [freshFrom]
    split
    · rename_i hfirst
      obtain ⟨k, hfound, htaken⟩ := ih (n + 1)
      refine ⟨k + 1, ?_, fun m hm => ?_⟩
      · rw [hfound, Nat.add_assoc n 1 k, Nat.add_comm 1 k]
      · cases m with
        | zero => exact List.contains_iff_mem.mp hfirst
        | succ m =>
          have hnext := htaken m (Nat.lt_of_succ_lt_succ hm)
          rwa [Nat.add_assoc n 1 m, Nat.add_comm 1 m] at hnext
    · exact ⟨0, rfl, fun m hm => absurd hm (Nat.not_lt_zero m)⟩

/-- A fresh identifier is the first candidate that is not in use. -/
theorem exists_freshId (used : List String) (base : String) :
    ∃ n, freshId used base = candidate base n ∧ candidate base n ∉ used ∧
      ∀ m < n, candidate base m ∈ used := by
  have hfree := freshId_notMem used base
  by_cases hbase : base ∈ used
  · obtain ⟨k, hfound, htaken⟩ := exists_freshFrom used base used.length 0
    have hfresh : freshId used base = candidate base (k + 1) := by
      rw [freshId, if_pos (List.contains_iff_mem.mpr hbase), hfound, Nat.zero_add]
    refine ⟨k + 1, hfresh, hfresh ▸ hfree, fun m hm => ?_⟩
    cases m with
    | zero => exact hbase
    | succ m => simpa using htaken m (Nat.lt_of_succ_lt_succ hm)
  · have hfresh : freshId used base = base :=
      if_neg fun hused => hbase (List.contains_iff_mem.mp hused)
    exact ⟨0, hfresh, hbase, fun m hm => absurd hm (Nat.not_lt_zero m)⟩

/-- A text that can stand for a node: a letter, then letters, digits and underscores, all ASCII. -/
structure Identifier (id : String) : Prop where
  startsWithLetter : ∃ first rest, id.toList = first :: rest ∧ first.isAlpha = true
  allowed : ∀ c ∈ id.toList, c.isAlphanum = true ∨ c = '_'
  ascii : ∀ c ∈ id.toList, c.toNat < 128

theorem isIdChar_iff : isIdChar c = true ↔ c.isAlphanum = true ∨ c = '_' := by
  simp [isIdChar]

theorem lt_of_isIdChar (hallowed : isIdChar c = true) : c.toNat < 128 := by
  rcases isIdChar_iff.mp hallowed with halphanum | rfl
  · -- the upper ends of the ranges of capital letters, small letters and digits
    have hends : c.val ≤ 'Z'.val ∨ c.val ≤ 'z'.val ∨ c.val ≤ '9'.val := by
      rcases Bool.or_eq_true_iff.mp halphanum with halpha | hdigit
      · rcases Bool.or_eq_true_iff.mp halpha with hupper | hlower
        · exact .inl (of_decide_eq_true hupper).2
        · exact .inr (.inl (of_decide_eq_true (Bool.and_eq_true_iff.mp hlower).2))
      · exact .inr (.inr (of_decide_eq_true (Bool.and_eq_true_iff.mp hdigit).2))
    rcases hends with hle | hle | hle
    · exact Nat.lt_of_le_of_lt hle (by decide)
    · exact Nat.lt_of_le_of_lt hle (by decide)
    · exact Nat.lt_of_le_of_lt hle (by decide)
  · decide

theorem identifier_of_chars {first : Char} {rest : List Char} (hid : id.toList = first :: rest)
    (hfirst : first.isAlpha = true) (hchars : (first :: rest).all isIdChar = true) :
    Identifier id where
  startsWithLetter := ⟨first, rest, hid, hfirst⟩
  allowed c hc := isIdChar_iff.mp (List.all_eq_true.mp hchars c (hid ▸ hc))
  ascii c hc := lt_of_isIdChar (List.all_eq_true.mp hchars c (hid ▸ hc))

theorem Identifier.append (hid : Identifier id)
    (hsuffix : suffix.toList.all isIdChar = true) : Identifier (id ++ suffix) := by
  obtain ⟨first, rest, hchars, hfirst⟩ := hid.startsWithLetter
  have hall : (id ++ suffix).toList = first :: (rest ++ suffix.toList) := by
    rw [String.toList_append, hchars, List.cons_append]
  have hword : id.toList.all isIdChar = true :=
    List.all_eq_true.mpr fun c hc => isIdChar_iff.mpr (hid.allowed c hc)
  refine identifier_of_chars hall hfirst ?_
  rw [← List.cons_append, ← hchars, List.all_append, hword, hsuffix, Bool.and_self]

theorem isIdChar_of_mem_toString (hc : c ∈ (toString n).toList) : isIdChar c = true := by
  rw [Nat.toString_eq_ofList_toDigits, String.toList_ofList] at hc
  have hdigit := Nat.isDigit_of_mem_toDigits (by decide) (by decide) hc
  simp [isIdChar, Char.isAlphanum, hdigit]

theorem Identifier.candidate (hbase : Identifier base) (n : Nat) :
    Identifier (candidate base n) := by
  cases n with
  | zero => exact hbase
  | succ n =>
    have hunderscore : "_".toList.all isIdChar = true := by decide
    exact (hbase.append hunderscore).append
      (List.all_eq_true.mpr fun c hc => isIdChar_of_mem_toString hc)

/-- What is left of a name starts with a letter, or is given a start that does, or is replaced. -/
theorem identifier_sanitize (name : String) : Identifier (sanitize name) := by
  unfold sanitize
  generalize hchars : (name.toList.map _).filter isIdChar = chars
  have hallowed : chars.all isIdChar = true :=
    List.all_eq_true.mpr fun c hc => (List.mem_filter.mp (hchars ▸ hc)).2
  cases chars with
  | nil => exact identifier_of_chars rfl (by decide) (by decide)
  | cons first rest =>
    dsimp only
    split
    · rename_i hletter
      exact identifier_of_chars String.toList_ofList hletter hallowed
    · have hstart : Identifier "n_" := identifier_of_chars rfl (by decide) (by decide)
      exact hstart.append (by rwa [String.toList_ofList])

theorem prefix_foldl_assignNext (names : List String) (ids : List (String × String))
    (used : List String) : ids <+: (names.foldl assignNext (ids, used)).1 := by
  induction names generalizing ids used with
  | nil => exact List.prefix_rfl
  | cons name rest ih => exact (List.prefix_append _ _).trans (ih _ _)

/-- A name is given the first of its candidates that no name before it was given; what names before
    it were given stays. -/
theorem assignIds_append_cons (before : List String) (name : String) (after : List String) :
    ∃ n, assignIds before ++ [(name, candidate (sanitize name) n)] <+:
        assignIds (before ++ name :: after) ∧
      candidate (sanitize name) n ∉ (assignIds before).map (·.2) ∧
      ∀ m < n, candidate (sanitize name) m ∈ (assignIds before).map (·.2) := by
  have hassigned := assigned_assignIds before
  obtain ⟨n, hfresh, hfree, htaken⟩ :=
    exists_freshId (before.foldl assignNext ([], [])).2 (sanitize name)
  rw [hassigned.mem_used_iff] at hfree
  refine ⟨n, ?_, hfree, fun m hm => (hassigned.mem_used_iff _).mp (htaken m hm)⟩
  have hall : assignIds (before ++ name :: after) =
      (after.foldl assignNext (assignNext (before.foldl assignNext ([], [])) name)).1 := by
    change ((before ++ name :: after).foldl assignNext ([], [])).1 = _
    rw [List.foldl_append, List.foldl_cons]
  rw [hall, ← hfresh]
  exact prefix_foldl_assignNext after _ _

theorem mem_of_mem_assignIds (hentry : (name, id) ∈ assignIds names) : name ∈ names := by
  rw [← (assigned_assignIds names).keys_eq]
  exact List.mem_map_of_mem hentry

theorem idOf_of_mem (hdistinct : names.Nodup) (hentry : (name, id) ∈ assignIds names) :
    idOf (assignIds names) name = id := by
  have hkeys : ((assignIds names).map (·.1)).Nodup := by
    rw [(assigned_assignIds names).keys_eq]
    exact hdistinct
  rw [idOf, lookup_of_mem hkeys hentry, Option.getD_some]

/-- Where the names before one are given identifiers, the last of which it cannot have, it gets the
    first of its candidates that none of them has. -/
theorem exists_idOf (hdistinct : (before ++ name :: after).Nodup) :
    ∃ n ≤ before.length,
      idOf (assignIds (before ++ name :: after)) name = candidate (sanitize name) n ∧
      ∀ m < n, ∃ earlier ∈ before,
        idOf (assignIds (before ++ name :: after)) earlier = candidate (sanitize name) m := by
  obtain ⟨n, hstart, -, htaken⟩ := assignIds_append_cons before name after
  have hkeys := (assigned_assignIds before).keys_eq
  have hlength : (assignIds before).length = before.length := by
    rw [← List.length_map (·.1), hkeys]
  refine ⟨n, ?_, ?_, fun m hm => ?_⟩
  · have hle := le_length_of_taken htaken
    rwa [List.length_map, hlength] at hle
  · exact idOf_of_mem hdistinct (hstart.subset (by simp))
  · obtain ⟨⟨earlier, id⟩, hentry, hid⟩ := List.mem_map.mp (htaken m hm)
    refine ⟨earlier, hkeys ▸ List.mem_map_of_mem hentry, ?_⟩
    rw [← hid]
    exact idOf_of_mem hdistinct (hstart.subset (List.mem_append_left _ hentry))

theorem identifier_idOf (hdistinct : names.Nodup) (hname : name ∈ names) :
    Identifier (idOf (assignIds names) name) := by
  obtain ⟨before, after, rfl, -⟩ := List.eq_append_cons_of_mem hname
  obtain ⟨n, -, hid, -⟩ := exists_idOf hdistinct
  exact hid ▸ (identifier_sanitize name).candidate n

/-- Every name of a list of distinct names gets an identifier that is a word of letters, digits and
    underscores, and different names get different ones. It is the first candidate that no name
    before it has; at most as many candidates are tried in vain as there are such names. -/
theorem assignIds_exact (hdistinct : names.Nodup) :
    (assignIds names).map (·.1) = names ∧
    (∀ name ∈ names, ∀ other ∈ names,
      (idOf (assignIds names) name = idOf (assignIds names) other ↔ name = other)) ∧
    (∀ name ∈ names, Identifier (idOf (assignIds names) name)) ∧
    ∀ before name after, names = before ++ name :: after → ∃ n ≤ before.length,
      idOf (assignIds names) name = candidate (sanitize name) n ∧
      ∀ m < n, ∃ earlier ∈ before,
        idOf (assignIds names) earlier = candidate (sanitize name) m := by
  refine ⟨(assigned_assignIds names).keys_eq, fun name hname other => idOf_inj hname,
    fun name => identifier_idOf hdistinct, ?_⟩
  rintro before name after rfl
  exact exists_idOf hdistinct

/-- Names that leave the same base, that leave another name's numbered one, and that leave
    nothing. -/
theorem assignIds_exact_collidingNames :
    let ids := assignIds ["a-b", "a.b", "a_b_2", "é"]
    idOf ids "a_b_2" ≠ idOf ids "a.b" ∧ Identifier (idOf ids "é") ∧
      ∃ n ≤ 2, idOf ids "a_b_2" = candidate "a_b_2" n := by
  obtain ⟨-, hinj, hwords, hfirst⟩ :=
    @assignIds_exact ["a-b", "a.b", "a_b_2", "é"] (by decide)
  obtain ⟨n, hn, hid, -⟩ := hfirst ["a-b", "a.b"] "a_b_2" ["é"] rfl
  have hbase : sanitize "a_b_2" = "a_b_2" := by decide
  refine ⟨fun heq => ?_, hwords "é" (by decide), n, hn, hbase ▸ hid⟩
  exact absurd ((hinj "a_b_2" (by decide) "a.b" (by decide)).mp heq) (by decide)

end Report

end ImportCycles
