import ImportCycles.Proofs.Text.Lines
import ImportCycles.Proofs.Text.Trim
import ImportCycles.Proofs.Text.Utf8
import ImportCycles.Settings.SourceList

namespace ImportCycles

namespace Settings

/-- The names that a list can hold. -/
structure IsRoot (name : String) : Prop where
  ne_empty : name ≠ ""
  trimmed : Text.Trimmed name.toList
  oneLine : ∀ c ∈ name.toList, Text.isLineBreak c = false
  noComment : name.toList.head? ≠ some '#'

/-- What one line lists. -/
inductive LineLists : List Char → List String → Prop where
  | blank {line : List Char} (hblank : Text.Blank line) : LineLists line []
  | comment {before rest : List Char} (hbefore : Text.Blank before) :
      LineLists (before ++ '#' :: rest) []
  | root {before after : List Char} {name : String} (hbefore : Text.Blank before)
      (hafter : Text.Blank after) (hroot : IsRoot name) :
      LineLists (before ++ name.toList ++ after) [name]

/-- What a text lists, line by line. A line feed after a carriage return ends an empty line here,
    which lists nothing. -/
inductive Lists : List Char → List String → Prop where
  | last {line : List Char} {listed : List String}
      (hline : ∀ c ∈ line, Text.isLineBreak c = false) (hlisted : LineLists line listed) :
      Lists line listed
  | line {line rest : List Char} {c : Char} {listed later : List String}
      (hline : ∀ d ∈ line, Text.isLineBreak d = false) (hbreak : Text.isLineBreak c = true)
      (hlisted : LineLists line listed) (hlater : Lists rest later) :
      Lists (line ++ c :: rest) (listed ++ later)

/-- Every file with this text is read as this list. -/
def ReadsAs (content : String) (names : List String) : Prop :=
  ∀ (d : Disk) (p : Path), d.read p = .ok (Utf8.encode content) → readSourceList d p = .ok names

/-- The roots that some lines name. -/
def rootsOfLines (lines : List (List Char)) : List String :=
  ((lines.map Text.trim).filter fun line =>
    !line.isEmpty && line.head? != some '#').map String.ofList

variable {line text more : List Char} {listed names others : List String}

theorem rootsOfLines_cons (line : List Char) (lines : List (List Char)) :
    rootsOfLines (line :: lines) = rootsOfLines [line] ++ rootsOfLines lines := by
  simp only [rootsOfLines, ← List.map_append, ← List.filter_append, List.map_cons, List.map_nil,
    List.singleton_append]

theorem LineLists.rootsOfLines_eq (hlisted : LineLists line listed) :
    rootsOfLines [line] = listed := by
  cases hlisted with
  | blank hblank => simp [rootsOfLines, Text.trim_of_blank hblank]
  | @comment before rest hbefore =>
    have htrim : Text.trim (before ++ '#' :: rest ++ []) = Text.trim ('#' :: rest) :=
      Text.trim_append hbefore nofun
    have hsign : Text.isBlank '#' = false := by decide
    obtain ⟨kept, hkept⟩ := Text.exists_trim_cons hsign rest
    rw [List.append_nil, hkept] at htrim
    simp [rootsOfLines, htrim]
  | @root before after name hbefore hafter hroot =>
    have htrim : Text.trim (before ++ name.toList ++ after) = name.toList := by
      rw [Text.trim_append hbefore hafter, hroot.trimmed.trim_eq]
    rw [rootsOfLines, List.map_cons, htrim]
    simp [hroot.ne_empty, hroot.noComment]

theorem exists_lineLists (hline : ∀ c ∈ line, Text.isLineBreak c = false) :
    ∃ listed, LineLists line listed := by
  obtain ⟨before, after, hbefore, hafter, hsplit⟩ := Text.exists_blanks_trim line
  have htrimmed := Text.trimmed_trim line
  cases hkept : Text.trim line with
  | nil =>
    refine ⟨[], .blank fun c hc => ?_⟩
    rw [hsplit, hkept, List.append_nil] at hc
    exact (List.mem_append.mp hc).elim (hbefore c) (hafter c)
  | cons c rest =>
    rw [hkept] at hsplit htrimmed
    by_cases hcomment : c = '#'
    · refine ⟨[], ?_⟩
      rw [hsplit, hcomment, List.append_assoc]
      exact .comment hbefore
    · have hroot : IsRoot (String.ofList (c :: rest)) := by
        refine ⟨by simp, by simpa using htrimmed, fun d hd => hline d ?_, by simpa using hcomment⟩
        rw [String.toList_ofList] at hd
        rw [hsplit]
        exact List.mem_append_left _ (List.mem_append_right _ hd)
      have hlisted := LineLists.root hbefore hafter hroot
      rw [String.toList_ofList, ← hsplit] at hlisted
      exact ⟨_, hlisted⟩

/-- Every text is a list. -/
theorem exists_lists (text : List Char) : ∃ names, Lists text names := by
  rcases Text.oneLine_or_exists_break text with hline | ⟨line, c, rest, hline, hbreak, htext⟩
  · obtain ⟨listed, hlisted⟩ := exists_lineLists hline
    exact ⟨listed, .last hline hlisted⟩
  · obtain ⟨listed, hlisted⟩ := exists_lineLists hline
    obtain ⟨later, hlater⟩ := exists_lists rest
    exact ⟨listed ++ later, htext ▸ .line hline hbreak hlisted hlater⟩
termination_by text.length
decreasing_by
  rw [htext, List.length_append, List.length_cons]
  omega

/-- A text lists just what is read from it. -/
theorem Lists.rootsIn_eq (hlists : Lists text names) : rootsIn text = names := by
  change rootsOfLines (Text.lines text) = names
  induction hlists with
  | @last line listed hline hlisted =>
    rw [← hlisted.rootsOfLines_eq]
    by_cases hempty : line = []
    · rw [hempty]
      rfl
    · rw [Text.lines_of_oneLine hline hempty]
  | @line line rest c listed later hline hbreak hlisted hlater ih =>
    obtain ⟨kept, hlines, hkept⟩ := Text.exists_lines_break hline hbreak rest
    have hrest : rootsOfLines kept = later := by
      rw [← ih]
      rcases hkept with hsame | hempty
      · rw [hsame]
      · rw [hempty, rootsOfLines_cons]
        rfl
    rw [hlines, rootsOfLines_cons, hlisted.rootsOfLines_eq, hrest]

theorem LineLists.isRoot (hlisted : LineLists line listed) : ∀ name ∈ listed, IsRoot name := by
  cases hlisted with
  | blank => simp
  | comment => simp
  | root _ _ hroot => simpa using hroot

theorem Lists.isRoot (hlists : Lists text names) : ∀ name ∈ names, IsRoot name := by
  induction hlists with
  | last _ hlisted => exact hlisted.isRoot
  | line _ _ hlisted _ ih => exact List.forall_mem_append.mpr ⟨hlisted.isRoot, ih⟩

/-- Names that a list can hold are listed when each stands on a line of its own. -/
theorem lists_intercalate (hroots : ∀ name ∈ names, IsRoot name) :
    Lists ("\n".intercalate names).toList names := by
  have hname : ∀ {name}, IsRoot name → LineLists name.toList [name] := by
    intro name hroot
    simpa using @LineLists.root [] [] name nofun nofun hroot
  rw [String.toList_intercalate]
  induction names with
  | nil => exact .last nofun (.blank nofun)
  | cons name rest ih =>
    obtain ⟨hroot, hrest⟩ := List.forall_mem_cons.mp hroots
    cases rest with
    | nil => simpa using Lists.last hroot.oneLine (hname hroot)
    | cons second others =>
      simpa using Lists.line hroot.oneLine (by decide) (hname hroot) (ih hrest)

/-- A text that ends with a line break can be followed by any other. -/
theorem Lists.append (hlists : Lists text names)
    (hends : ∀ c ∈ text.getLast?, Text.isLineBreak c = true) (hmore : Lists more others) :
    Lists (text ++ more) (names ++ others) := by
  induction hlists with
  | @last line listed hline hlisted =>
    cases hlast : line.getLast? with
    | none =>
      obtain rfl := List.getLast?_eq_none_iff.mp hlast
      obtain rfl : [] = listed := hlisted.rootsOfLines_eq
      exact hmore
    | some c =>
      have hplain := hline c (List.mem_of_getLast? hlast)
      rw [hends c hlast] at hplain
      cases hplain
  | @line line rest c listed later hline hbreak hlisted hlater ih =>
    rw [List.append_assoc, List.cons_append, List.append_assoc]
    refine .line hline hbreak hlisted (ih fun d hd => hends d ?_)
    rw [List.getLast?_append, List.getLast?_cons, Option.mem_def.mp hd]
    rfl

theorem Lists.readsAs {content : String} (hlists : Lists content.toList names) :
    ReadsAs content names := by
  intro d p hread
  have htext : readTextOr (.listUnreadable p.toString) d p =
      .ok (Text.unifyBreaks content.toList) := by
    rw [readTextOr, Disk.readText, hread]
    simp only [Utf8.decode_encode]
  have hroots : rootsIn (Text.unifyBreaks content.toList) = rootsIn content.toList :=
    congrArg rootsOfLines (Text.lines_unifyBreaks content.toList)
  rw [readSourceList, htext, Except.map, hroots, hlists.rootsIn_eq]

/-- Lists of roots are read stably, whatever text a file holds. The roots are those that its lines
    list, each a name that a list can hold. Written one on a line they are read again; and behind a
    line break the list goes on as another list would begin. -/
theorem readSourceList_stable (content : String) :
    ∃ names, ReadsAs content names ∧ Lists content.toList names ∧
      (∀ name ∈ names, IsRoot name) ∧ ReadsAs ("\n".intercalate names) names ∧
      ((∀ c ∈ content.toList.getLast?, Text.isLineBreak c = true) →
        ∀ more : String, ∃ others, ReadsAs more others ∧
          ReadsAs (content ++ more) (names ++ others)) := by
  obtain ⟨names, hlists⟩ := exists_lists content.toList
  have hroots := hlists.isRoot
  refine ⟨names, hlists.readsAs, hlists, hroots, (lists_intercalate hroots).readsAs,
    fun hends more => ?_⟩
  obtain ⟨others, hmore⟩ := exists_lists more.toList
  have hboth := hlists.append hends hmore
  rw [← String.toList_append] at hboth
  exact ⟨others, hmore.readsAs, hboth.readsAs⟩

/-- A disk with a single file. -/
def diskOf (content : String) : Disk :=
  { top := .dir [("sources.txt", .file (Utf8.encode content))] }

/-- A wide blank before a root, a comment behind blanks, and no two lines that end alike. -/
def mixedList : String :=
  "\u3000core/src\t\r\n\n  # generated code\u2028api/src\r"

theorem readSourceList_stable_mixedList :
    readSourceList (diskOf mixedList) ⟨"", ["sources.txt"]⟩ = .ok ["core/src", "api/src"] ∧
      readSourceList (diskOf "core/src\napi/src") ⟨"", ["sources.txt"]⟩ =
        .ok ["core/src", "api/src"] ∧
      readSourceList (diskOf (mixedList ++ "\n#\x0bdocs")) ⟨"", ["sources.txt"]⟩ =
        .ok ["core/src", "api/src", "docs"] := by
  have hfirst : rootsIn mixedList.toList = ["core/src", "api/src"] := by decide
  have hlater : rootsIn "\n#\x0bdocs".toList = ["docs"] := by decide
  have hends : ∀ c ∈ mixedList.toList.getLast?, Text.isLineBreak c = true := by
    intro c hc
    have hlast : mixedList.toList.getLast? = some '\r' := by decide
    obtain rfl : '\r' = c := Option.some.inj (hlast.symm.trans hc)
    rfl
  obtain ⟨names, hreads, hlists, -, hagain, happend⟩ := readSourceList_stable mixedList
  obtain rfl : names = ["core/src", "api/src"] := hlists.rootsIn_eq.symm.trans hfirst
  obtain ⟨others, hmore, hboth⟩ := happend hends "\n#\x0bdocs"
  obtain ⟨docs, hdocs, hlisted, -⟩ := readSourceList_stable "\n#\x0bdocs"
  obtain rfl : docs = ["docs"] := hlisted.rootsIn_eq.symm.trans hlater
  -- both say what is read from one and the same file
  have hsame := (hmore (diskOf "\n#\x0bdocs") ⟨"", ["sources.txt"]⟩ rfl).symm.trans (hdocs _ _ rfl)
  obtain rfl : others = ["docs"] := Except.ok.inj hsame
  exact ⟨hreads _ _ rfl, hagain _ _ rfl, hboth _ _ rfl⟩

end Settings

end ImportCycles
