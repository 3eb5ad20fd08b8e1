import Mathlib.Data.List.Basic
import ImportCycles.Java.Source
import ImportCycles.Proofs.Text.Lines
import ImportCycles.Proofs.Text.Trim

namespace ImportCycles

namespace Java

open Text (Blank Trimmed)

/-- A name that a line can declare. -/
structure IsName (name : String) : Prop where
  nonempty : name ≠ ""
  trimmed : Trimmed name.toList

/-- A name as it can stand before the semicolons of a declaration. -/
structure Declarable (name : String) : Prop extends IsName name where
  last : ∀ c ∈ name.toList.getLast?, c ≠ ';'

/-- How a declaration may be spaced: blanks before it, at least one between keyword and name, and
    blanks on both sides of the semicolons, of which there is at least one. -/
structure Spacing where
  before : String
  gap : String
  inner : String
  semicolons : Nat
  after : String
  blank_before : Blank before.toList
  blank_gap : Blank gap.toList
  gap_ne : gap ≠ ""
  blank_inner : Blank inner.toList
  semicolons_pos : 0 < semicolons
  blank_after : Blank after.toList

/-- A line that declares a name. -/
def declaration (k : Keyword) (spacing : Spacing) (name : String) : String :=
  spacing.before ++ k.text ++ spacing.gap ++ name ++ spacing.inner ++
    String.ofList (List.replicate spacing.semicolons ';') ++ spacing.after

variable {k : Keyword} {finish : List Char → List Char} {line name : String} {cs rest : List Char}
  {c : Char} {spacing : Spacing}

/-- What a trimmed line declares for a keyword, case by case. The character after the keyword is
    looked at in the last two cases only, and there it stands, with two more behind it. -/
inductive Declares (k : Keyword) : List Char → Except Cause (List Char) → Prop where
  | noKeyword {cs : List Char} (hstart : ¬ k.text.toList <+: cs) :
    Declares k cs (.error .noKeyword)
  | tooShort {cs : List Char} (hstart : k.text.toList <+: cs) (hshort : cs.length < k.minLength) :
    Declares k cs (.error .tooShort)
  | noBlank {c : Char} {rest : List Char} (hrest : 2 ≤ rest.length)
    (hblank : Text.isBlank c = false) : Declares k (k.text.toList ++ c :: rest) (.error .noBlank)
  | named {c : Char} {rest : List Char} (hrest : 2 ≤ rest.length)
    (hblank : Text.isBlank c = true) : Declares k (k.text.toList ++ c :: rest)
      (.ok (Text.trim (Text.trimEndBy (· == ';') rest)))

theorem declared_append (hrest : 2 ≤ rest.length) :
    declared k (k.text.toList ++ c :: rest) =
      if Text.isBlank c then .ok (Text.trim (Text.trimEndBy (· == ';') rest))
      else .error .noBlank := by
  have hstart : Text.startsWith (k.text.toList ++ c :: rest) k.text.toList = true :=
    Text.startsWith_iff.mpr (List.prefix_append _ _)
  have hlength : ¬ (k.text.toList ++ c :: rest).length < k.minLength := by
    simp only [List.length_append, List.length_cons, Keyword.minLength, String.length_toList]
    omega
  have hdrop : (k.text.toList ++ c :: rest).drop k.text.length = c :: rest := by
    rw [← String.length_toList, List.drop_left]
  simp only [declared, hstart, hlength, hdrop, Bool.not_true, Bool.false_eq_true, if_false]

theorem declares_declared (k : Keyword) (cs : List Char) : Declares k cs (declared k cs) := by
  by_cases hstart : k.text.toList <+: cs
  · by_cases hshort : cs.length < k.minLength
    · rw [declared, Text.startsWith_iff.mpr hstart, if_neg (by simp), if_pos hshort]
      exact .tooShort hstart hshort
    · obtain ⟨following, rfl⟩ := hstart
      rw [List.length_append, String.length_toList, Keyword.minLength] at hshort
      cases following with
      | nil => exact absurd (by simp) hshort
      | cons c rest =>
        have hrest : 2 ≤ rest.length := by
          rw [List.length_cons] at hshort
          omega
        rw [declared_append hrest]
        split
        · rename_i hblank
          exact .named hrest hblank
        · rename_i hblank
          exact .noBlank hrest (Bool.eq_false_iff.mpr hblank)
  · have hnone : Text.startsWith cs k.text.toList = false :=
      Bool.eq_false_iff.mpr fun hyes => hstart (Text.startsWith_iff.mp hyes)
    rw [declared, hnone, Bool.not_false, if_pos rfl]
    exact .noKeyword hstart

theorem not_blank_text (k : Keyword) : ∀ c ∈ k.text.toList.head?, Text.isBlank c = false := by
  cases k <;> simp [Keyword.text] <;> decide

theorem toList_ne_nil (hname : name ≠ "") : name.toList ≠ [] := by
  simpa using hname

/-- The semicolons are all that is trimmed of a name and the blanks after it. -/
theorem Declarable.trimEndBy_eq (hname : Declarable name) (more : List Char) {inner : List Char}
    (hinner : Blank inner) :
    Text.trimEndBy (· == ';') (more ++ name.toList ++ inner) = more ++ name.toList ++ inner := by
  refine Text.trimEndBy_of_last fun c hc => beq_eq_false_iff_ne.mpr ?_
  rw [Option.mem_def, List.getLast?_append, List.getLast?_append, Option.or_eq_some_iff,
    Option.or_eq_some_iff] at hc
  rcases hc with hc | ⟨-, hc | ⟨hempty, -⟩⟩
  · rintro rfl
    exact absurd (hinner _ (List.mem_of_getLast? hc)) (by decide)
  · exact hname.last c hc
  · exact absurd (List.getLast?_eq_none_iff.mp hempty) (toList_ne_nil hname.nonempty)

/-- The trimmed line starts with the keyword and ends with a semicolon. -/
theorem trim_declaration (k : Keyword) (spacing : Spacing) (name : String) :
    Text.trim (declaration k spacing name).toList =
      k.text.toList ++ spacing.gap.toList ++ name.toList ++ spacing.inner.toList ++
        List.replicate spacing.semicolons ';' := by
  have hparts : (declaration k spacing name).toList = spacing.before.toList ++
      (k.text.toList ++ spacing.gap.toList ++ name.toList ++ spacing.inner.toList ++
        List.replicate spacing.semicolons ';') ++ spacing.after.toList := by
    simp only [declaration, String.toList_append, String.toList_ofList, List.append_assoc]
  rw [hparts, Text.trim_append spacing.blank_before spacing.blank_after]
  refine Trimmed.trim_eq ⟨fun c hc => ?_, fun c hc => ?_⟩
  · refine not_blank_text k c ?_
    cases k <;> exact hc
  · rw [List.getLast?_append, List.getLast?_replicate, if_neg spacing.semicolons_pos.ne'] at hc
    cases hc
    decide

/-- A declaration is read back to its name, whatever its spacing. -/
theorem declared_declaration (hname : Declarable name) (k : Keyword) (spacing : Spacing) :
    declared k (Text.trim (declaration k spacing name).toList) = .ok name.toList := by
  obtain ⟨c, more, hgap⟩ := List.exists_cons_of_ne_nil (toList_ne_nil spacing.gap_ne)
  obtain ⟨hblank, hmore⟩ := List.forall_mem_cons.mp (hgap ▸ spacing.blank_gap)
  have hsemicolons : ∀ c ∈ List.replicate spacing.semicolons ';', (c == ';') = true := fun c hc =>
    beq_iff_eq.mpr (List.eq_of_mem_replicate hc)
  have hlength : 2 ≤ (more ++ name.toList ++ spacing.inner.toList ++
      List.replicate spacing.semicolons ';').length := by
    have hletters := List.length_pos_iff.mpr (toList_ne_nil hname.nonempty)
    have hended := spacing.semicolons_pos
    simp only [List.length_append, List.length_replicate]
    omega
  have hline : Text.trim (declaration k spacing name).toList =
      k.text.toList ++ c :: (more ++ name.toList ++ spacing.inner.toList ++
        List.replicate spacing.semicolons ';') := by
    rw [trim_declaration, hgap]
    simp only [List.append_assoc, List.cons_append]
  rw [hline, declared_append hlength, if_pos hblank, Text.trimEndBy_append hsemicolons,
    hname.trimEndBy_eq more spacing.blank_inner, Text.trim_append hmore spacing.blank_inner,
    hname.trimmed.trim_eq]

theorem parseWith_of_declared (hdeclared : declared k (Text.trim line.toList) = .ok cs)
    (hfinish : finish cs ≠ []) : parseWith k finish line = .ok (String.ofList (finish cs)) := by
  rw [parseWith]
  simp only [hdeclared]

theorem exists_of_parseWith (hparse : parseWith k finish line = .ok name) :
    ∃ cs, declared k (Text.trim line.toList) = .ok cs ∧ finish cs ≠ [] ∧
      name = String.ofList (finish cs) := by
  rw [parseWith] at hparse
  dsimp only at hparse
  split at hparse
  · cases hparse
  · rename_i cs hdeclared
    refine ⟨cs, hdeclared, ?_⟩
    split at hparse
    · cases hparse
    · rename_i hne
      exact ⟨hne, (Except.ok.inj hparse).symm⟩

/-- A declaration never declares the empty name. -/
theorem ne_empty_of_parseWith (hparse : parseWith k finish line = .ok name) : name ≠ "" := by
  obtain ⟨cs, -, hne, rfl⟩ := exists_of_parseWith hparse
  simpa using hne

theorem ne_empty_of_mem_imports {lines : List String} (hname : name ∈ imports lines) :
    name ≠ "" := by
  fun_induction imports lines with
  | case1 => cases hname
  | case2 line rest _ first hparse ih =>
    rcases List.mem_cons.mp hname with rfl | hname
    · exact ne_empty_of_parseWith hparse
    · exact ih hname
  | case3 _ _ _ _ _ ih => exact ih hname
  | case4 => cases hname
  | case5 _ _ _ _ ih => exact ih hname

theorem ne_empty_of_mem_references {path : Path} {bytes : List UInt8}
    (hname : name ∈ (scan path bytes).references) : name ≠ "" :=
  ne_empty_of_mem_imports hname

theorem trimmed_of_declared (hdeclared : declared k cs = .ok rest) : Trimmed rest := by
  have hcases := declares_declared k cs
  rw [hdeclared] at hcases
  cases hcases with
  | named => exact Text.trimmed_trim _

theorem trimmed_dropStatic (htrimmed : Trimmed cs) : Trimmed (dropStatic cs) := by
  unfold dropStatic
  split
  · exact Text.trimmed_trim _
  · exact htrimmed

theorem isName_of_parseWith (hfinish : ∀ cs, Trimmed cs → Trimmed (finish cs))
    (hparse : parseWith k finish line = .ok name) : IsName name := by
  obtain ⟨cs, hdeclared, hne, rfl⟩ := exists_of_parseWith hparse
  refine ⟨ne_empty_of_parseWith hparse, ?_⟩
  rw [String.toList_ofList]
  exact hfinish cs (trimmed_of_declared hdeclared)

theorem isName_of_parsePackage (hparse : parsePackage line = .ok name) : IsName name :=
  isName_of_parseWith (fun _ htrimmed => htrimmed) hparse

theorem isName_of_parseImport (hparse : parseImport line = .ok name) : IsName name :=
  isName_of_parseWith (fun _ htrimmed => trimmed_dropStatic htrimmed) hparse

theorem parsePackage_declaration (hname : Declarable name) (spacing : Spacing) :
    parsePackage (declaration .ofPackage spacing name) = .ok name := by
  have hread := declared_declaration hname .ofPackage spacing
  rw [parsePackage, parseWith_of_declared hread (toList_ne_nil hname.nonempty), id,
    String.ofList_toList]

theorem dropStatic_of_plain (hplain : ¬ "static ".toList <+: cs) : dropStatic cs = cs := by
  rw [dropStatic, if_neg]
  rwa [Text.startsWith_iff]

theorem dropStatic_append (htrimmed : Trimmed cs) : dropStatic ("static ".toList ++ cs) = cs := by
  rw [dropStatic, if_pos (Text.startsWith_iff.mpr (List.prefix_append _ _)),
    List.drop_left' (by simp), htrimmed.trim_eq]

theorem getLast?_static (hname : name ≠ "") :
    ("static " ++ name).toList.getLast? = name.toList.getLast? := by
  rw [String.toList_append, List.getLast?_append_of_ne_nil _ (toList_ne_nil hname)]

theorem Declarable.static (hname : Declarable name) : Declarable ("static " ++ name) where
  nonempty := by simp
  trimmed := by
    refine ⟨fun c hc => ?_, ?_⟩
    · rw [String.toList_append] at hc
      cases hc
      rfl
    · rw [getLast?_static hname.nonempty]
      exact hname.trimmed.last
  last := by
    rw [getLast?_static hname.nonempty]
    exact hname.last

theorem parseImport_declaration {written : String} (hwritten : Declarable written)
    (hname : name ≠ "") (hdrop : dropStatic written.toList = name.toList) (spacing : Spacing) :
    parseImport (declaration .ofImport spacing written) = .ok name := by
  have hread := declared_declaration hwritten .ofImport spacing
  have hne : dropStatic written.toList ≠ [] := hdrop ▸ toList_ne_nil hname
  rw [parseImport, parseWith_of_declared hread hne, hdrop, String.ofList_toList]

/-- Declarations parse back to the declared name, whatever the blanks around their parts and however
    many semicolons end them. An import loses one static modifier, and none if there is none.
    Conversely any line is either malformed or gives a name without blanks at its ends, and the
    character after the keyword is looked at only where there is one. -/
theorem parse_declaration (hname : Declarable name) (spacing : Spacing) :
    parsePackage (declaration .ofPackage spacing name) = .ok name ∧
    (¬ "static ".toList <+: name.toList →
      parseImport (declaration .ofImport spacing name) = .ok name) ∧
    parseImport (declaration .ofImport spacing ("static " ++ name)) = .ok name ∧
    ∀ line,
      ((∃ m, parsePackage line = .error m) ∨ ∃ read, parsePackage line = .ok read ∧ IsName read) ∧
      ((∃ m, parseImport line = .error m) ∨ ∃ read, parseImport line = .ok read ∧ IsName read) ∧
      ∀ k, Declares k (Text.trim line.toList) (declared k (Text.trim line.toList)) := by
  refine ⟨parsePackage_declaration hname spacing, fun hplain => ?_, ?_, fun line => ⟨?_, ?_, ?_⟩⟩
  · exact parseImport_declaration hname hname.nonempty (dropStatic_of_plain hplain) spacing
  · refine parseImport_declaration hname.static hname.nonempty ?_ spacing
    rw [String.toList_append, dropStatic_append hname.trimmed]
  · cases hparse : parsePackage line with
    | error m => exact .inl ⟨m, rfl⟩
    | ok read => exact .inr ⟨read, rfl, isName_of_parsePackage hparse⟩
  · cases hparse : parseImport line with
    | error m => exact .inl ⟨m, rfl⟩
    | ok read => exact .inr ⟨read, rfl, isName_of_parseImport hparse⟩
  · exact fun k => declares_declared k _

/-- Wide blanks, line breaks and several semicolons. -/
def wideSpacing : Spacing where
  before := "\t"
  gap := "\u2003 "
  inner := "\u00a0"
  semicolons := 3
  after := "\u3000\n"
  blank_before := by decide
  blank_gap := by decide
  gap_ne := by decide
  blank_inner := by decide
  semicolons_pos := by decide
  blank_after := by decide

/-- A name with a blank and a semicolon inside, and one that starts like a static import. -/
theorem parse_declaration_wideSpacing :
    Declarable "static a; b" ∧
      parsePackage (declaration .ofPackage wideSpacing "static a; b") = .ok "static a; b" ∧
      parseImport (declaration .ofImport wideSpacing "static static a; b") = .ok "static a; b" ∧
      Declarable "a" ∧ parseImport (declaration .ofImport wideSpacing "a") = .ok "a" := by
  have hname : Declarable "static a; b" :=
    { nonempty := by decide, trimmed := ⟨by simp; rfl, by simp; rfl⟩, last := by simp }
  have hplain : Declarable "a" :=
    { nonempty := by decide, trimmed := ⟨by simp; rfl, by simp; rfl⟩, last := by simp }
  obtain ⟨hpackage, -, hstatic, -⟩ := parse_declaration hname wideSpacing
  obtain ⟨-, himport, -⟩ := parse_declaration hplain wideSpacing
  exact ⟨hname, hpackage, hstatic, hplain, himport (by decide)⟩

end Java

end ImportCycles
