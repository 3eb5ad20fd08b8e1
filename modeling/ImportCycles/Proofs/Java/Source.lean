import ImportCycles.Proofs.Java.Declaration
import ImportCycles.Proofs.Text.Utf8

namespace ImportCycles

namespace Java

variable {k : Keyword} {line : String} {lines more : List String} {content : List UInt8}

/-- The lines before the first type declaration. -/
def headerLines (lines : List String) : List String :=
  lines.takeWhile fun line => !startsType line

/-- The lines of a source file. -/
def sourceLines (bytes : List UInt8) : List String :=
  (Text.lines (sourceText bytes)).map String.ofList

/-- The lines of a source file that only line feeds end. -/
def sourceFeedLines (bytes : List UInt8) : List String :=
  (Text.feedLines (sourceText bytes)).map String.ofList

/-- The file ends with a line break. -/
def EndsLine (content : List UInt8) : Prop :=
  content.getLast? = some 10 ∨ content.getLast? = some 13

/-- No line is a declaration of both kinds. -/
theorem startsType_of_startsDeclaration (hline : startsDeclaration k line = true) :
    startsType line = false := by
  obtain ⟨rest, hrest⟩ := Text.startsWith_iff.mp hline
  rw [startsType, ← hrest]
  cases k <;> rfl

theorem imports_eq (lines : List String) :
    imports lines = ((headerLines lines).filter (startsDeclaration .ofImport)).filterMap
      fun line => (parseImport line).toOption := by
  fun_induction imports lines with
  | case1 => rfl
  | case2 line rest hstart name hparse ih =>
    simp [headerLines, startsType_of_startsDeclaration hstart, hstart, hparse, Except.toOption, ih]
  | case3 line rest hstart error hparse ih =>
    simp [headerLines, startsType_of_startsDeclaration hstart, hstart, hparse, Except.toOption, ih]
  | case4 line rest hstart htype => simp [headerLines, htype]
  | case5 line rest hstart htype ih => simp [headerLines, htype, hstart, ih]

theorem packageName_eq (lines : List String) :
    packageName lines = (((headerLines lines).find? (startsDeclaration .ofPackage)).bind
      fun line => (parsePackage line).toOption).getD "" := by
  fun_induction packageName lines with
  | case1 => rfl
  | case2 line rest hstart name hparse =>
    simp [headerLines, startsType_of_startsDeclaration hstart, hstart, hparse, Except.toOption]
  | case3 line rest hstart error hparse =>
    simp [headerLines, startsType_of_startsDeclaration hstart, hstart, hparse, Except.toOption]
  | case4 line rest hstart htype => simp [headerLines, htype]
  | case5 line rest hstart htype ih => simp [headerLines, htype, hstart, ih]

theorem headerLines_append (htype : ∃ line ∈ lines, startsType line = true) (more : List String) :
    headerLines (lines ++ more) = headerLines lines := by
  obtain ⟨line, hline, hstart⟩ := htype
  rw [headerLines, List.takeWhile_append, if_neg, headerLines]
  intro hlength
  have hall := List.takeWhile_eq_self_iff.mp
    ((List.takeWhile_prefix fun line => !startsType line).eq_of_length hlength)
  simpa [hstart] using hall line hline

theorem imports_append (htype : ∃ line ∈ lines, startsType line = true) (more : List String) :
    imports (lines ++ more) = imports lines := by
  rw [imports_eq, headerLines_append htype, ← imports_eq]

theorem packageName_append (htype : ∃ line ∈ lines, startsType line = true) (more : List String) :
    packageName (lines ++ more) = packageName lines := by
  rw [packageName_eq, headerLines_append htype, ← packageName_eq]

/-- The bytes after a line break do not change the text up to it. -/
theorem exists_sourceText_append (hends : EndsLine content) :
    ∃ chars, sourceText content = chars ++ ['\n'] ∧
      ∀ more, ∃ rest, sourceText (content ++ more) = chars ++ '\n' :: rest := by
  obtain ⟨before, b, rfl, hascii, hbreak⟩ : ∃ before b, content = before ++ [b] ∧
      b.toNat < 0x80 ∧ (Char.ofNat b.toNat = '\n' ∨ Char.ofNat b.toNat = '\r') := by
    rcases hends with hlast | hlast <;> obtain ⟨before, rfl⟩ := List.getLast?_eq_some_iff.mp hlast
    · exact ⟨before, 10, rfl, by decide, .inl rfl⟩
    · exact ⟨before, 13, rfl, by decide, .inr rfl⟩
  obtain ⟨decoded, hdecoded⟩ := Utf8.decodeLossy_ascii hascii before
  obtain ⟨chars, hchars⟩ := Text.readApart hbreak decoded
  have happend : ∀ more, ∃ rest, sourceText (before ++ [b] ++ more) = chars ++ '\n' :: rest ∧
      (more = [] → rest = []) := by
    intro more
    obtain ⟨rest, hrest, hnil⟩ := hchars (Utf8.decodeLossy more)
    refine ⟨rest, ?_, fun hmore => hnil (by rw [hmore]; rfl)⟩
    rw [sourceText, List.append_assoc, List.singleton_append, hdecoded, hrest]
  refine ⟨chars, ?_, fun more => ?_⟩
  · obtain ⟨rest, hrest, hnil⟩ := happend []
    rwa [List.append_nil, hnil rfl] at hrest
  · obtain ⟨rest, hrest, -⟩ := happend more
    exact ⟨rest, hrest⟩

/-- However a text is split, if a line feed splits it in two then so does a line break at the end of
    a part of the file. -/
theorem exists_split_append {split : List Char → List (List Char)}
    (hsplit : ∀ before more,
      split (before ++ '\n' :: more) = split (before ++ ['\n']) ++ split more)
    (hends : EndsLine content) (more : List UInt8) :
    ∃ others, (split (sourceText (content ++ more))).map String.ofList =
      (split (sourceText content)).map String.ofList ++ others := by
  obtain ⟨chars, htext, happend⟩ := exists_sourceText_append hends
  obtain ⟨rest, hrest⟩ := happend more
  exact ⟨(split rest).map String.ofList, by rw [hrest, hsplit, List.map_append, htext]⟩

theorem startsType_iff :
    startsType line = true ↔ ∃ word ∈ typeKeywords, word.toList <+: line.toList := by
  simp only [startsType, List.any_eq_true, Text.startsWith_iff]

theorem typeKeyword_plain : ∀ word ∈ typeKeywords,
    (∀ c ∈ word.toList, Text.isLineBreak c = false) ∧ word.toList ≠ [] := by
  simp [typeKeywords, Text.isLineBreak]

/-- A type declaration that starts a line which a line feed ends also starts one of the lines that
    any line break ends. -/
theorem exists_sourceLine_startsType (hends : EndsLine content)
    (htype : ∃ line ∈ sourceFeedLines content, startsType line = true) :
    ∃ line ∈ sourceLines content, startsType line = true := by
  obtain ⟨chars, htext, -⟩ := exists_sourceText_append hends
  obtain ⟨line, hline, hstart⟩ := htype
  obtain ⟨word, hword, hprefix⟩ := startsType_iff.mp hstart
  rw [sourceFeedLines, htext] at hline
  obtain ⟨cs, hcs, rfl⟩ := List.mem_map.mp hline
  rw [String.toList_ofList] at hprefix
  obtain ⟨hplain, hne⟩ := typeKeyword_plain word hword
  obtain ⟨piece, hpiece, hstarts⟩ := Text.exists_line_of_feedLine hplain hne hcs hprefix
  refine ⟨String.ofList piece, ?_, startsType_iff.mpr ⟨word, hword, ?_⟩⟩
  · rw [sourceLines, htext]
    exact List.mem_map_of_mem hpiece
  · rwa [String.toList_ofList]

/-- Nothing after the first type declaration influences a scan: what follows a line break after it
    changes neither the name of the unit nor its references, and what a file references are the
    names read from the import lines before the declaration, in their order. -/
theorem scan_append (path : Path) (hends : EndsLine content)
    (htype : ∃ line ∈ sourceFeedLines content, startsType line = true) (more : List UInt8) :
    scan path (content ++ more) = scan path content ∧
    qualifiedName path (content ++ more) = qualifiedName path content ∧
    ∀ bytes, (scan path bytes).references =
      ((headerLines (sourceLines bytes)).filter (startsDeclaration .ofImport)).filterMap
        fun line => (parseImport line).toOption := by
  have hscan : ∀ bytes, scan path bytes =
      ⟨unitName (packageName (sourceLines bytes)) path, imports (sourceLines bytes)⟩ := fun _ => rfl
  have hqualified : ∀ bytes, qualifiedName path bytes =
      unitName (packageName (sourceFeedLines bytes)) path := fun _ => rfl
  refine ⟨?_, ?_, fun bytes => imports_eq _⟩
  · obtain ⟨others, hothers⟩ : ∃ others, sourceLines (content ++ more) =
        sourceLines content ++ others := exists_split_append Text.lines_feed hends more
    have hpiece := exists_sourceLine_startsType hends htype
    rw [hscan, hothers, packageName_append hpiece, imports_append hpiece, ← hscan]
  · obtain ⟨others, hothers⟩ : ∃ others, sourceFeedLines (content ++ more) =
        sourceFeedLines content ++ others := exists_split_append Text.feedLines_feed hends more
    rw [hqualified, hothers, packageName_append htype, ← hqualified]

/-- A package, an import and a malformed import, each ended in its own way, then a byte that is no
    text and a class. The file is cut off inside a line break. -/
def cutSource : List UInt8 :=
  ("package p;\rimport a.B;\nimport ;;\r\n".toList.map fun c => c.toNat.toUInt8) ++
    0xC3 :: "\nclass C\r".toList.map fun c => c.toNat.toUInt8

/-- The rest of the line break and another import. -/
def cutRest : List UInt8 :=
  "\nimport d.E;\n".toList.map fun c => c.toNat.toUInt8

theorem scan_append_cutSource :
    EndsLine cutSource ∧ (∃ line ∈ sourceFeedLines cutSource, startsType line = true) ∧
      scan ⟨"", ["C.java"]⟩ (cutSource ++ cutRest) = ⟨"p.C", ["a.B"]⟩ ∧
      qualifiedName ⟨"", ["C.java"]⟩ (cutSource ++ cutRest) = "p.C" := by
  have hends : EndsLine cutSource := .inr (by decide)
  have htype : ∃ line ∈ sourceFeedLines cutSource, startsType line = true :=
    ⟨"class C", by decide, by decide⟩
  obtain ⟨hscan, hqualified, -⟩ := scan_append ⟨"", ["C.java"]⟩ hends htype cutRest
  exact ⟨hends, htype, hscan.trans (by decide), hqualified.trans (by decide)⟩

end Java

end ImportCycles
