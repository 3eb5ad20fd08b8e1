import ImportCycles.Text.Blank

namespace ImportCycles

namespace Text

variable {cs line word : List Char} {c : Char}

theorem startsWith_iff {start : List Char} : startsWith cs start = true ↔ start <+: cs :=
  List.isPrefixOf_iff_prefix

theorem pushFront_append {lines : List (List Char)} (hne : lines ≠ []) (more : List (List Char)) :
    pushFront c (lines ++ more) = pushFront c lines ++ more := by
  obtain ⟨first, rest, rfl⟩ := List.exists_cons_of_ne_nil hne
  rfl

theorem pushFront_ne_nil (c : Char) (lines : List (List Char)) : pushFront c lines ≠ [] := by
  cases lines <;> exact List.cons_ne_nil _ _

theorem feedLines_ne_nil (hne : cs ≠ []) : feedLines cs ≠ [] := by
  obtain ⟨c, rest, rfl⟩ := List.exists_cons_of_ne_nil hne
  rw [feedLines]
  split
  · exact List.cons_ne_nil _ _
  · exact pushFront_ne_nil _ _

/-- Unless a carriage return stands before a line feed, each character is looked at by itself. -/
theorem lines_cons (hapart : c = '\r' → cs.head? ≠ some '\n') :
    lines (c :: cs) = if isLineBreak c then [] :: lines cs else pushFront c (lines cs) := by
  refine lines.eq_3 c cs ?_
  rintro rest rfl rfl
  exact hapart rfl rfl

theorem lines_ne_nil (hne : cs ≠ []) : lines cs ≠ [] := by
  obtain ⟨c, rest, rfl⟩ := List.exists_cons_of_ne_nil hne
  unfold lines
  split
  · contradiction
  · exact List.cons_ne_nil _ _
  · split
    · exact List.cons_ne_nil _ _
    · exact pushFront_ne_nil _ _

/-- A text is split at a line feed, and goes on after it as a text of its own. -/
theorem feedLines_feed (before more : List Char) :
    feedLines (before ++ '\n' :: more) = feedLines (before ++ ['\n']) ++ feedLines more := by
  induction before with
  | nil => rfl
  | cons c rest ih =>
    rw [List.cons_append, List.cons_append, feedLines, feedLines, ih]
    split
    · rfl
    · exact pushFront_append (feedLines_ne_nil (by simp)) _

theorem head?_ne_feed (hapart : ∀ others, c = '\r' → cs = '\n' :: others → False)
    (hreturn : c = '\r') : cs.head? ≠ some '\n' := by
  intro hfeed
  obtain ⟨others, rfl⟩ := List.head?_eq_some_iff.mp hfeed
  exact hapart others hreturn rfl

theorem lines_feed_cons {rest more : List Char} (hapart : c = '\r' → rest.head? ≠ some '\n')
    (ih : lines (rest ++ '\n' :: more) = lines (rest ++ ['\n']) ++ lines more) :
    lines (c :: rest ++ '\n' :: more) = lines (c :: rest ++ ['\n']) ++ lines more := by
  by_cases hpair : c = '\r' ∧ rest = []
  · obtain ⟨rfl, rfl⟩ := hpair
    rfl
  · have hstill : ∀ after, c = '\r' → (rest ++ '\n' :: after).head? ≠ some '\n' := by
      intro after hreturn
      have hne : rest ≠ [] := fun hnil => hpair ⟨hreturn, hnil⟩
      obtain ⟨first, others, rfl⟩ := List.exists_cons_of_ne_nil hne
      exact hapart hreturn
    rw [List.cons_append, List.cons_append, lines_cons (hstill more), lines_cons (hstill []), ih]
    split
    · rfl
    · exact pushFront_append (lines_ne_nil (by simp)) _

theorem lines_feed (before more : List Char) :
    lines (before ++ '\n' :: more) = lines (before ++ ['\n']) ++ lines more := by
  -- The recursion of `lines`, which takes a carriage return and a line feed in one step.
  induction before using lines.induct with
  | case1 => rfl
  | case2 rest ih => exact congrArg ([] :: ·) ih
  | case3 c rest hapart _ ih => exact lines_feed_cons (head?_ne_feed hapart) ih
  | case4 c rest hapart _ ih => exact lines_feed_cons (head?_ne_feed hapart) ih

/-- The lines of a text that ends with a line feed, put together again. -/
theorem flatMap_feedLines (before : List Char) :
    (feedLines (before ++ ['\n'])).flatMap (· ++ ['\n']) = before ++ ['\n'] := by
  induction before with
  | nil => rfl
  | cons c rest ih =>
    rw [List.cons_append, feedLines]
    split
    · rename_i hfeed
      rw [List.flatMap_cons, ih, hfeed]
      rfl
    · have hne : feedLines (rest ++ ['\n']) ≠ [] := feedLines_ne_nil (by simp)
      obtain ⟨first, others, hlines⟩ := List.exists_cons_of_ne_nil hne
      rw [hlines, List.flatMap_cons] at ih
      rw [hlines, pushFront, List.flatMap_cons, List.cons_append, List.cons_append, ih]

/-- A text that ends with a line feed has the lines that its coarser lines have one by one. -/
theorem lines_eq_flatMap (before : List Char) :
    lines (before ++ ['\n']) =
      (feedLines (before ++ ['\n'])).flatMap fun line => lines (line ++ ['\n']) := by
  have hparts : ∀ bodies : List (List Char), lines (bodies.flatMap (· ++ ['\n'])) =
      bodies.flatMap fun line => lines (line ++ ['\n']) := by
    intro bodies
    induction bodies with
    | nil => rfl
    | cons body rest ih =>
      rw [List.flatMap_cons, List.flatMap_cons, List.append_assoc, List.singleton_append,
        lines_feed, ih]
  rw [← hparts, flatMap_feedLines]

/-- A word without line breaks at the start of a text is at the start of its first line. -/
theorem lines_word (hword : ∀ c ∈ word, isLineBreak c = false) (hne : word ≠ [])
    (more : List Char) : ∃ rest others, lines (word ++ more) = (word ++ rest) :: others := by
  induction word with
  | nil => exact absurd rfl hne
  | cons c rest ih =>
    obtain ⟨hc, hrest⟩ := List.forall_mem_cons.mp hword
    have hreturn : c ≠ '\r' := by
      rintro rfl
      exact absurd hc (by decide)
    rw [List.cons_append, lines_cons fun heq => absurd heq hreturn, if_neg (by simp [hc])]
    cases rest with
    | nil =>
      rw [List.nil_append]
      cases lines more with
      | nil => exact ⟨[], [], rfl⟩
      | cons first others => exact ⟨first, others, rfl⟩
    | cons second word =>
      obtain ⟨tail, others, hlines⟩ := ih hrest (List.cons_ne_nil _ _)
      exact ⟨tail, others, by rw [hlines]; rfl⟩

/-- If a word without line breaks starts a line that ends with a line feed, it starts a line. -/
theorem exists_line_of_feedLine (hword : ∀ c ∈ word, isLineBreak c = false) (hne : word ≠ [])
    {before : List Char} (hline : line ∈ feedLines (before ++ ['\n'])) (hstart : word <+: line) :
    ∃ piece ∈ lines (before ++ ['\n']), word <+: piece := by
  obtain ⟨tail, rfl⟩ := hstart
  obtain ⟨rest, others, hlines⟩ := lines_word hword hne (tail ++ ['\n'])
  rw [lines_eq_flatMap]
  refine ⟨word ++ rest, List.mem_flatMap.mpr ⟨_, hline, ?_⟩, List.prefix_append _ _⟩
  rw [List.append_assoc, hlines]
  exact List.mem_cons_self

theorem unifyBreaks_return (hapart : cs.head? ≠ some '\n') :
    unifyBreaks ('\r' :: cs) = '\n' :: unifyBreaks cs := by
  refine unifyBreaks.eq_3 cs ?_
  rintro rest rfl
  exact hapart rfl

theorem unifyBreaks_cons (hother : c ≠ '\r') : unifyBreaks (c :: cs) = c :: unifyBreaks cs := by
  refine unifyBreaks.eq_4 c cs ?_ hother
  rintro rest rfl
  exact absurd rfl hother

/-- Reading a text with line feeds for all its breaks does not change its lines. -/
theorem lines_unifyBreaks (cs : List Char) : lines (unifyBreaks cs) = lines cs := by
  induction cs using unifyBreaks.induct with
  | case1 => rfl
  | case2 rest ih => exact congrArg ([] :: ·) ih
  | case3 rest hapart ih =>
    have hfeed : rest.head? ≠ some '\n' :=
      head?_ne_feed (fun others _ => hapart others) rfl
    rw [unifyBreaks_return hfeed, lines_cons fun _ => hfeed]
    exact congrArg ([] :: ·) ih
  | case4 first rest _ hother ih =>
    rw [unifyBreaks_cons hother, lines_cons fun heq => absurd heq hother,
      lines_cons fun heq => absurd heq hother, ih]

theorem lines_of_oneLine (hline : ∀ c ∈ line, isLineBreak c = false) (hne : line ≠ []) :
    lines line = [line] := by
  induction line with
  | nil => exact absurd rfl hne
  | cons c rest ih =>
    obtain ⟨hc, hrest⟩ := List.forall_mem_cons.mp hline
    rw [lines_cons fun heq => absurd hc (by simp [heq, isLineBreak]), if_neg (by simp [hc])]
    cases rest with
    | nil => rfl
    | cons second others => rw [ih hrest (List.cons_ne_nil _ _), pushFront]

/-- A line comes off at the first line break. If this is a carriage return, a line feed after it may
    come off with it, which would end an empty line if it were left. -/
theorem exists_lines_break (hline : ∀ d ∈ line, isLineBreak d = false)
    (hbreak : isLineBreak c = true) (more : List Char) :
    ∃ rest, lines (line ++ c :: more) = line :: rest ∧
      (lines more = rest ∨ lines more = [] :: rest) := by
  induction line with
  | nil =>
    by_cases hpair : c = '\r' ∧ more.head? = some '\n'
    · obtain ⟨rfl, hfeed⟩ := hpair
      obtain ⟨others, rfl⟩ := List.head?_eq_some_iff.mp hfeed
      exact ⟨lines others, rfl, .inr rfl⟩
    · refine ⟨lines more, ?_, .inl rfl⟩
      rw [List.nil_append, lines_cons fun hreturn hfeed => hpair ⟨hreturn, hfeed⟩, if_pos hbreak]
  | cons d others ih =>
    obtain ⟨hd, hothers⟩ := List.forall_mem_cons.mp hline
    obtain ⟨rest, hlines, hmore⟩ := ih hothers
    refine ⟨rest, ?_, hmore⟩
    rw [List.cons_append, lines_cons fun heq => absurd hd (by simp [heq, isLineBreak]),
      if_neg (by simp [hd]), hlines, pushFront]

/-- A text is a single line, or one comes off at its first line break. -/
theorem oneLine_or_exists_break (cs : List Char) :
    (∀ c ∈ cs, isLineBreak c = false) ∨ ∃ line c rest, (∀ d ∈ line, isLineBreak d = false) ∧
      isLineBreak c = true ∧ cs = line ++ c :: rest := by
  induction cs with
  | nil => exact .inl (by simp)
  | cons c rest ih =>
    cases hc : isLineBreak c with
    | true => exact .inr ⟨[], c, rest, by simp, hc, rfl⟩
    | false =>
      rcases ih with hline | ⟨line, d, more, hline, hd, rfl⟩
      · exact .inl (List.forall_mem_cons.mpr ⟨hc, hline⟩)
      · exact .inr ⟨c :: line, d, more, List.forall_mem_cons.mpr ⟨hc, hline⟩, hd, rfl⟩

/-- A line break, with the line feed that may belong to it, is written as a line feed. -/
theorem exists_unifyBreaks (hbreak : c = '\n' ∨ c = '\r') (more : List Char) :
    ∃ rest, unifyBreaks (c :: more) = '\n' :: rest ∧ (more = [] → rest = []) := by
  rcases hbreak with rfl | rfl
  · exact ⟨unifyBreaks more, unifyBreaks_cons (by decide), by rintro rfl; rfl⟩
  · by_cases hfeed : more.head? = some '\n'
    · obtain ⟨others, rfl⟩ := List.head?_eq_some_iff.mp hfeed
      exact ⟨unifyBreaks others, rfl, nofun⟩
    · exact ⟨unifyBreaks more, unifyBreaks_return hfeed, by rintro rfl; rfl⟩

/-- A text that ends with a line break is read by itself, whatever comes after it. -/
def ReadApart (before : List Char) (c : Char) : Prop :=
  ∃ chars, ∀ more, ∃ rest,
    unifyBreaks (before ++ c :: more) = chars ++ '\n' :: rest ∧ (more = [] → rest = [])

theorem ReadApart.cons {before longer : List Char} {d : Char} (hbefore : ReadApart before c)
    (hstep : ∀ more, unifyBreaks (longer ++ c :: more) = d :: unifyBreaks (before ++ c :: more)) :
    ReadApart longer c := by
  obtain ⟨chars, hchars⟩ := hbefore
  refine ⟨d :: chars, fun more => ?_⟩
  obtain ⟨rest, hrest, hnil⟩ := hchars more
  exact ⟨rest, by rw [hstep, hrest, List.cons_append], hnil⟩

theorem readApart (hbreak : c = '\n' ∨ c = '\r') (before : List Char) : ReadApart before c := by
  induction before using unifyBreaks.induct with
  | case1 => exact ⟨[], exists_unifyBreaks hbreak⟩
  | case2 rest ih => exact ih.cons fun more => rfl
  | case3 rest hapart ih =>
    by_cases hpair : rest = [] ∧ c = '\n'
    · obtain ⟨rfl, rfl⟩ := hpair
      exact ⟨[], fun more => ⟨unifyBreaks more, rfl, by rintro rfl; rfl⟩⟩
    · refine ih.cons fun more => unifyBreaks_return fun hfeed => ?_
      cases rest with
      | nil => exact hpair ⟨rfl, Option.some.inj hfeed⟩
      | cons first others => exact hapart others (by rw [Option.some.inj hfeed])
  | case4 first rest _ hother ih => exact ih.cons fun more => unifyBreaks_cons hother

end Text

end ImportCycles
