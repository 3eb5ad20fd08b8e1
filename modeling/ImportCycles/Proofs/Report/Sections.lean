import ImportCycles.Proofs.Report.Order
import ImportCycles.Proofs.Report.Statement

namespace ImportCycles

namespace Report

/-- A section of a text report: the number in its header, and the traces below it. -/
structure Section where
  count : Nat
  traces : List String
  deriving Repr, DecidableEq

namespace Section

/-- The number that a header starts with. A header without a number counts nothing. -/
def countOf (header : List Char) : Nat :=
  Nat.ofDigitChars 10 (header.takeWhile Char.isDigit) 0

/-- The trace on an indented line. -/
def unindent (line : List Char) : String :=
  .ofList (line.drop 2)

/-- Read a section, a header and as many traces as it counts. The lines after it are left over. -/
def read? : List (List Char) → Option (Section × List (List Char))
  | [] => none
  | header :: rest =>
    let count := countOf header
    if count ≤ rest.length then some (⟨count, (rest.take count).map unindent⟩, rest.drop count)
    else none

/-- The lines of a section. No trace has a line break, so each stands on a line of its own. -/
structure Written (traces lines : List String) : Prop where
  unbroken : ∀ line ∈ lines, '\n' ∉ line.toList
  header : ∃ header, lines = header :: indented traces ∧ countOf header.toList = traces.length

end Section

/-- The sections of a text report: the cycles, and after a blank line the refused traces. A report
    without refused traces ends with its first section. -/
def readSections? (text : String) : Option (Section × Section) := do
  let (cycles, rest) ← Section.read? (text.toList.splitOn '\n')
  match rest with
  | [] => return (cycles, ⟨0, []⟩)
  | [] :: rest =>
    let (rejected, rest) ← Section.read? rest
    if rest = [] then return (cycles, rejected) else none
  | _ => none

variable {cycles others rejected refused traces lines : List String} {wording : String}

theorem countOf_counted (n : Nat) (hwording : ∀ c ∈ wording.toList.head?, c.isDigit = false) :
    Section.countOf (toString n ++ wording).toList = n := by
  have hdigits : ∀ c ∈ Nat.toDigits 10 n, c.isDigit = true := fun c hc =>
    Nat.isDigit_of_mem_toDigits (by decide) (by decide) hc
  have hstop : wording.toList.takeWhile Char.isDigit = [] := by
    cases hchars : wording.toList with
    | nil => rfl
    | cons c more => exact List.takeWhile_cons_of_neg (by simp [hwording c (by simp [hchars])])
  rw [String.toList_append, Nat.toString_eq_ofList_toDigits, String.toList_ofList, Section.countOf,
    List.takeWhile_append_of_pos hdigits, hstop, List.append_nil,
    Nat.ofDigitChars_toDigits (by decide) (by decide)]

theorem unindent_indented (traces : List String) :
    ((indented traces).map String.toList).map Section.unindent = traces := by
  have hline : ∀ trace : String, Section.unindent ("  " ++ trace).toList = trace := by
    intro trace
    rw [Section.unindent, String.toList_append]
    exact String.ofList_toList
  rw [indented, List.map_map, List.map_map]
  exact (List.map_congr_left fun trace _ => hline trace).trans (List.map_id _)

/-- A section is read back whatever follows it, since its header tells where it ends. -/
theorem Section.Written.read? (hwritten : Section.Written traces lines) (more : List (List Char)) :
    Section.read? (lines.map String.toList ++ more) = some (⟨traces.length, traces⟩, more) := by
  obtain ⟨header, rfl, hcount⟩ := hwritten.header
  have hlength : ((indented traces).map String.toList).length = traces.length := by
    rw [List.length_map, indented, List.length_map]
  rw [List.map_cons, List.cons_append, Section.read?]
  simp only [hcount]
  rw [if_pos (by simp [hlength]), List.take_left' hlength, List.drop_left' hlength,
    unindent_indented]

theorem written_counted (hwording : ∀ c ∈ wording.toList.head?, c.isDigit = false)
    (hunbroken : '\n' ∉ wording.toList) (htraces : ∀ trace ∈ traces, '\n' ∉ trace.toList) :
    Section.Written traces ((toString traces.length ++ wording) :: indented traces) where
  unbroken := by
    have hnumber : '\n' ∉ (toString traces.length).toList := fun hmem =>
      absurd (isIdChar_of_mem_toString hmem) (by decide)
    refine List.forall_mem_cons.mpr ⟨?_, List.forall_mem_map.mpr fun trace htrace => ?_⟩
    · rw [String.toList_append, List.mem_append, not_or]
      exact ⟨hnumber, hunbroken⟩
    · simp [htraces trace htrace]
  header := ⟨_, rfl, countOf_counted _ hwording⟩

theorem written_cycleLines (hcycles : ∀ trace ∈ cycles, '\n' ∉ trace.toList) :
    Section.Written (sortNames cycles) (cycleLines cycles) := by
  rw [cycleLines]
  split
  · rename_i hempty
    obtain rfl := List.isEmpty_iff.mp hempty
    exact ⟨by decide, _, rfl, by decide⟩
  · rw [← length_sortNames cycles]
    exact written_counted (by simp) (by simp) fun trace htrace =>
      hcycles trace (mem_sortNames.mp htrace)

/-- The section on the refused traces is left out if there are none. -/
theorem rejectedLines_cases (hrejected : ∀ trace ∈ rejected, '\n' ∉ trace.toList) :
    (sortDistinct rejected = [] ∧ rejectedLines rejected = []) ∨
      ∃ lines, rejectedLines rejected = "" :: lines ∧
        Section.Written (sortDistinct rejected) lines := by
  rw [rejectedLines]
  split
  · rename_i hempty
    obtain rfl := List.isEmpty_iff.mp hempty
    exact .inl ⟨rfl, rfl⟩
  · exact .inr ⟨_, rfl, written_counted (by simp) (by simp) fun trace htrace =>
      hrejected trace (mem_sortDistinct.mp htrace)⟩

theorem readSections?_text (hcycles : ∀ trace ∈ cycles, '\n' ∉ trace.toList)
    (hrejected : ∀ trace ∈ rejected, '\n' ∉ trace.toList) :
    readSections? (text cycles rejected) =
      some (⟨cycles.length, sortNames cycles⟩,
        ⟨(sortDistinct rejected).length, sortDistinct rejected⟩) := by
  have hfirst := written_cycleLines hcycles
  have hne : cycleLines cycles ++ rejectedLines rejected ≠ [] := by
    obtain ⟨header, hlines, -⟩ := hfirst.header
    simp [hlines]
  have hunbroken : ∀ line ∈ cycleLines cycles ++ rejectedLines rejected, '\n' ∉ line.toList := by
    refine List.forall_mem_append.mpr ⟨hfirst.unbroken, ?_⟩
    rcases rejectedLines_cases hrejected with ⟨-, hlines⟩ | ⟨lines, hlines, hsecond⟩
    · simp [hlines]
    · exact hlines ▸ List.forall_mem_cons.mpr ⟨by decide, hsecond.unbroken⟩
  rw [readSections?, text, splitOn_intercalate_newline hne hunbroken, List.map_append,
    hfirst.read?, length_sortNames]
  rcases rejectedLines_cases hrejected with ⟨hnone, hlines⟩ | ⟨lines, hlines, hsecond⟩
  · rw [hlines, hnone]
    rfl
  · have hread := hsecond.read? []
    rw [List.append_nil] at hread
    rw [hlines]
    simp only [List.map_cons, String.toList_empty, Option.bind_eq_bind, Option.bind_some, hread]
    rfl

theorem rejectedLines_congr (hsame : ∀ trace, trace ∈ rejected ↔ trace ∈ refused) :
    rejectedLines rejected = rejectedLines refused := by
  have hempty : rejected.isEmpty = refused.isEmpty := by
    rw [Bool.eq_iff_iff]
    simp only [List.isEmpty_iff, List.eq_nil_iff_forall_not_mem, hsame]
  simp only [rejectedLines, hempty, sortDistinct_eq_iff.mpr hsame]

/-- The text report is faithful. If no trace has a line break, two texts are the same if and only if
    the cycles are the same up to their order and the refused traces up to order and repetition.
    Both sections are read back from any text, each in order and with the number of its traces,
    even if traces look like headers or are empty. -/
theorem text_faithful (hcycles : ∀ trace ∈ cycles, '\n' ∉ trace.toList)
    (hothers : ∀ trace ∈ others, '\n' ∉ trace.toList)
    (hrejected : ∀ trace ∈ rejected, '\n' ∉ trace.toList)
    (hrefused : ∀ trace ∈ refused, '\n' ∉ trace.toList) :
    (text cycles rejected = text others refused ↔
      cycles.Perm others ∧ ∀ trace, trace ∈ rejected ↔ trace ∈ refused) ∧
    ∃ found distinct : List String,
      (found.Perm cycles ∧ found.Pairwise (· ≤ ·)) ∧
      (distinct.Pairwise (· < ·) ∧ ∀ trace, trace ∈ distinct ↔ trace ∈ rejected) ∧
      readSections? (text cycles rejected) =
        some (⟨cycles.length, found⟩, ⟨distinct.length, distinct⟩) := by
  have hread := readSections?_text hcycles hrejected
  constructor
  · constructor
    · intro heq
      rw [heq, readSections?_text hothers hrefused] at hread
      simp only [Option.some.injEq, Prod.mk.injEq, Section.mk.injEq] at hread
      obtain ⟨⟨-, hfound⟩, -, hdistinct⟩ := hread
      exact ⟨sortNames_eq_iff.mp hfound.symm, sortDistinct_eq_iff.mp hdistinct.symm⟩
    · rintro ⟨hperm, hsame⟩
      rw [text_congr hperm, text, text, rejectedLines_congr hsame]
  · exact ⟨sortNames cycles, sortDistinct rejected,
      ⟨sortNames_perm cycles, sortNames_pairwise cycles⟩,
      ⟨sortDistinct_pairwise_lt rejected, fun trace => mem_sortDistinct⟩, hread⟩

/-- Traces that are empty or look like the header of the other section. -/
theorem text_faithful_imitations :
    let imitation := "1 edge(s) rejected because they would close a cycle:"
    text ["a", "", imitation] ["", ""] = text [imitation, "a", ""] [""] ∧
      text ["", imitation, "a"] [] ≠ text [""] ["a"] ∧
      ∃ found distinct : List String, found.Perm ["a", "", imitation] ∧
        (∀ trace, trace ∈ distinct ↔ trace ∈ ["", ""]) ∧
        readSections? (text ["a", "", imitation] ["", ""]) =
          some (⟨3, found⟩, ⟨distinct.length, distinct⟩) := by
  intro imitation
  have hcycles : ∀ trace ∈ ["a", "", imitation], '\n' ∉ trace.toList := by decide
  have hothers : ∀ trace ∈ [imitation, "a", ""], '\n' ∉ trace.toList := by decide
  have hrejected : ∀ trace ∈ ["", ""], '\n' ∉ trace.toList := by decide
  have hrefused : ∀ trace ∈ [""], '\n' ∉ trace.toList := by decide
  have htold := text_faithful hcycles hothers hrejected hrefused
  refine ⟨htold.1.mpr ⟨by decide, by simp⟩, fun heq => ?_, ?_⟩
  · have hmoved := @text_faithful ["", imitation, "a"] [""] [] ["a"] (by decide) (by decide)
      (by decide) (by decide)
    exact absurd (hmoved.1.mp heq).1 (by decide)
  · obtain ⟨found, distinct, ⟨hfound, -⟩, ⟨-, hdistinct⟩, hread⟩ := htold.2
    exact ⟨found, distinct, hfound, hdistinct, hread⟩

end Report

end ImportCycles
