import ImportCycles.Proofs.Java.Source
import ImportCycles.Proofs.Text.Breaks

namespace ImportCycles

namespace Java

open Text (separators endedLines MaybeEnded)

variable {k : Keyword} {line ended : String} {lines others : List String} {bytes : List UInt8}

/-- The lines of a source file that only line feeds end, each with the line feed that ends it. -/
def sourceEndedLines (bytes : List UInt8) : List String :=
  (endedLines (sourceText bytes)).map String.ofList

/-- Two lines that the search for a package treats alike. -/
structure ReadsAlike (line other : String) : Prop where
  declaration : startsDeclaration .ofPackage line = startsDeclaration .ofPackage other
  type : startsType line = startsType other
  parse : parsePackage line = parsePackage other

/-- Lines that are treated alike one by one lead to the same package. -/
theorem packageName_congr (halike : List.Forall₂ ReadsAlike lines others) :
    packageName lines = packageName others := by
  induction halike with
  | nil => rfl
  | cons hfirst _ ih =>
    rw [packageName, packageName, hfirst.declaration, hfirst.type, hfirst.parse, ih]

/-- A word without line feed starts a line with its end exactly if it starts the line. -/
theorem startsWith_ended {cs word : List Char} (hword : '\n' ∉ word) :
    Text.startsWith (cs ++ ['\n']) word = Text.startsWith cs word := by
  rw [Bool.eq_iff_iff, Text.startsWith_iff, Text.startsWith_iff, List.prefix_concat_iff]
  refine or_iff_right fun hwhole => hword ?_
  rw [hwhole]
  exact List.mem_append_right _ (List.mem_singleton_self _)

theorem startsDeclaration_ended (k : Keyword) (cs : List Char) :
    startsDeclaration k (String.ofList (cs ++ ['\n'])) =
      startsDeclaration k (String.ofList cs) := by
  rw [startsDeclaration, startsDeclaration, String.toList_ofList, String.toList_ofList]
  exact startsWith_ended (by cases k <;> decide)

theorem startsType_ended (cs : List Char) :
    startsType (String.ofList (cs ++ ['\n'])) = startsType (String.ofList cs) := by
  have hwords : ∀ word ∈ typeKeywords, '\n' ∉ word.toList := fun word hword hfeed =>
    absurd ((typeKeyword_plain word hword).1 _ hfeed) (by decide)
  rw [startsType, startsType, String.toList_ofList, String.toList_ofList, Bool.eq_iff_iff,
    List.any_eq_true, List.any_eq_true]
  refine exists_congr fun word => and_congr_right fun hword => ?_
  rw [startsWith_ended (hwords word hword)]

/-- The blanks around a declaration do not matter, and the line feed is one of them. -/
theorem parsePackage_ended (cs : List Char) :
    parsePackage (String.ofList (cs ++ ['\n'])) = parsePackage (String.ofList cs) := by
  have htrim : Text.trim ([] ++ cs ++ ['\n']) = Text.trim cs :=
    Text.trim_append (by decide) (by decide)
  rw [List.nil_append] at htrim
  simp only [parsePackage, parseWith, String.toList_ofList, htrim]

theorem readsAlike_of_maybeEnded {line ended : List Char} (hended : MaybeEnded line ended) :
    ReadsAlike (String.ofList ended) (String.ofList line) := by
  rcases hended with rfl | rfl
  · exact ⟨rfl, rfl, rfl⟩
  · exact ⟨startsDeclaration_ended _ _, startsType_ended _, parsePackage_ended _⟩

/-- Whether lines are read with their ends or without does not matter for the package. -/
theorem packageName_sourceEndedLines (bytes : List UInt8) :
    packageName (sourceEndedLines bytes) = packageName (sourceFeedLines bytes) := by
  refine packageName_congr ?_
  rw [sourceEndedLines, sourceFeedLines, List.forall₂_map_left_iff, List.forall₂_map_right_iff]
  exact (Text.forall₂_endedLines _).flip.imp fun _ _ hended => readsAlike_of_maybeEnded hended

/-- A file whose text has no separator has the same lines both ways. -/
theorem sourceLines_of_plain (hplain : ∀ c ∈ Utf8.decodeLossy bytes, c ∉ separators) :
    sourceLines bytes = sourceFeedLines bytes := by
  have hfeeds : ∀ c ∈ sourceText bytes, Text.isLineBreak c = true → c = '\n' := by
    intro c hc hbreak
    rcases Text.mem_of_mem_unifyBreaks hc with hfeed | ⟨hdecoded, hreturn⟩
    · exact hfeed
    · rcases Text.isLineBreak_iff.mp hbreak with hfeed | hcarriage | hseparator
      · exact hfeed
      · exact absurd hcarriage hreturn
      · exact absurd hseparator (hplain c hdecoded)
  rw [sourceLines, sourceFeedLines, Text.lines_eq_feedLines hfeeds]

/-- The two ways of naming a file agree if its text has none of the eight separators: whether its
    lines are split for a scan, or only at line feeds, and whether they are read with their ends,
    the package is the same and so is the name. -/
theorem naming_agrees (path : Path) (hplain : ∀ c ∈ Utf8.decodeLossy bytes, c ∉ separators) :
    packageName (sourceEndedLines bytes) = packageName (sourceLines bytes) ∧
    unitName (packageName (sourceEndedLines bytes)) path = qualifiedName path bytes ∧
    qualifiedName path bytes = (scan path bytes).name := by
  have hended := packageName_sourceEndedLines bytes
  have hlines := sourceLines_of_plain hplain
  have hqualified : qualifiedName path bytes =
      unitName (packageName (sourceFeedLines bytes)) path := rfl
  have hscanned : (scan path bytes).name = unitName (packageName (sourceLines bytes)) path := rfl
  refine ⟨?_, ?_, ?_⟩
  · rw [hended, hlines]
  · rw [hqualified, hended]
  · rw [hqualified, hscanned, hlines]

/-- Lines with all three kinds of ends, an ill-formed byte, and a last line without an end. -/
def mixedEnds : List UInt8 :=
  ("// \r\n\rimport a.B;\npackage  p.q ;;\t\r\n".toList.map fun c => c.toNat.toUInt8) ++
    0xE2 :: "package r;\rclass C".toList.map fun c => c.toNat.toUInt8

theorem naming_agrees_mixedEnds :
    (∀ c ∈ Utf8.decodeLossy mixedEnds, c ∉ separators) ∧
      qualifiedName ⟨"", ["C.java"]⟩ mixedEnds = "p.q.C" ∧
      (scan ⟨"", ["C.java"]⟩ mixedEnds).name = "p.q.C" := by
  have hnone : (Utf8.decodeLossy mixedEnds).all (!separators.contains ·) = true := by decide
  have hplain : ∀ c ∈ Utf8.decodeLossy mixedEnds, c ∉ separators := by
    simpa using hnone
  obtain ⟨-, -, hagree⟩ := naming_agrees ⟨"", ["C.java"]⟩ hplain
  have hname : qualifiedName ⟨"", ["C.java"]⟩ mixedEnds = "p.q.C" := by decide
  exact ⟨hplain, hname, hagree ▸ hname⟩

/-- A name tells the package that it was made from. -/
theorem unitName_inj {package other : String} {path : Path} :
    unitName package path = unitName other path ↔ package = other := by
  refine ⟨fun hname => ?_, fun heq => heq ▸ rfl⟩
  have hlength := congrArg String.length hname
  simp only [unitName, String.isEmpty_iff] at hname hlength
  by_cases hpackage : package = ""
  · by_cases hother : other = ""
    · rw [hpackage, hother]
    · rw [if_pos hpackage, if_neg hother] at hlength
      simp [String.length_append] at hlength
  · by_cases hother : other = ""
    · rw [if_neg hpackage, if_pos hother] at hlength
      simp [String.length_append] at hlength
    · rw [if_neg hpackage, if_neg hother] at hname
      simpa [String.append_assoc] using hname

/-- A package name with one character in the middle. -/
def cutPackage (c : Char) : List UInt8 :=
  Utf8.encode ("package a" ++ String.singleton c ++ "b;")

/-- None of the separators can be left out: with any one of them the two names can differ. -/
theorem naming_differs : ∀ c ∈ separators,
    (∀ other ∈ Utf8.decodeLossy (cutPackage c), other ∈ separators → other = c) ∧
      ∀ path, qualifiedName path (cutPackage c) ≠ (scan path (cutPackage c)).name := by
  have honly : (separators.all fun c => (Utf8.decodeLossy (cutPackage c)).all fun other =>
      !separators.contains other || other == c) = true := by
    decide +kernel
  have hdiffer : (separators.all fun c =>
      packageName (sourceFeedLines (cutPackage c)) != packageName (sourceLines (cutPackage c))) =
        true := by
    decide +kernel
  simp only [List.all_eq_true, Bool.or_eq_true, beq_iff_eq, bne_iff_ne] at honly hdiffer
  intro c hc
  refine ⟨fun other hother hseparator => ?_, fun path hname => ?_⟩
  · exact (honly c hc other hother).resolve_left (by simpa using hseparator)
  · exact hdiffer c hc (unitName_inj.mp hname)

end Java

end ImportCycles
