import Mathlib.Data.List.Forall2
import ImportCycles.Proofs.Text.Lines

namespace ImportCycles

namespace Text

variable {cs : List Char} {c : Char}

/-- The line breaks besides line feed and carriage return: vertical tab, form feed, three of the
    information separators, next line, line separator and paragraph separator. -/
def separators : List Char :=
  ['\x0b', '\x0c', '\x1c', '\x1d', '\x1e', '\x85', '\u2028', '\u2029']

theorem isLineBreak_iff : isLineBreak c = true ↔ c = '\n' ∨ c = '\r' ∨ c ∈ separators := by
  simp only [isLineBreak, separators, List.mem_cons, List.not_mem_nil, or_false, ← Char.toNat_inj,
    Bool.or_eq_true, Bool.and_eq_true, decide_eq_true_eq, beq_iff_eq, Char.reduceToNat]
  omega

/-- Every line break of the text that is read is a line feed or one of the separators. -/
theorem mem_of_mem_unifyBreaks (hmem : c ∈ unifyBreaks cs) : c = '\n' ∨ c ∈ cs ∧ c ≠ '\r' := by
  fun_induction unifyBreaks cs with
  | case1 => cases hmem
  | case2 rest ih =>
    rcases List.mem_cons.mp hmem with hfeed | hrest
    · exact .inl hfeed
    · exact (ih hrest).imp_right fun hlater => ⟨.tail _ (.tail _ hlater.1), hlater.2⟩
  | case3 rest _ ih =>
    rcases List.mem_cons.mp hmem with hfeed | hrest
    · exact .inl hfeed
    · exact (ih hrest).imp_right fun hlater => ⟨.tail _ hlater.1, hlater.2⟩
  | case4 first rest _ hother ih =>
    rcases List.mem_cons.mp hmem with rfl | hrest
    · exact .inr ⟨.head _, hother⟩
    · exact (ih hrest).imp_right fun hlater => ⟨.tail _ hlater.1, hlater.2⟩

/-- A text whose line breaks are line feeds has the same lines both ways. -/
theorem lines_eq_feedLines (hfeeds : ∀ c ∈ cs, isLineBreak c = true → c = '\n') :
    lines cs = feedLines cs := by
  induction cs with
  | nil => rfl
  | cons c rest ih =>
    obtain ⟨hc, hrest⟩ := List.forall_mem_cons.mp hfeeds
    have hreturn : c ≠ '\r' := by
      rintro rfl
      exact absurd (hc (by decide)) (by decide)
    rw [lines_cons fun heq => absurd heq hreturn, feedLines, ih hrest]
    by_cases hfeed : c = '\n'
    · rw [if_pos hfeed, hfeed, if_pos (by decide)]
    · rw [if_neg hfeed, if_neg fun hbreak => hfeed (hc hbreak)]

/-- The lines of a text that only line feeds end, each with the line feed that ends it. -/
def endedLines : List Char → List (List Char)
  | [] => []
  | c :: rest => if c = '\n' then [c] :: endedLines rest else pushFront c (endedLines rest)

/-- A line by itself, or with a line feed at its end. -/
def MaybeEnded (line ended : List Char) : Prop :=
  ended = line ∨ ended = line ++ ['\n']

theorem MaybeEnded.cons {line ended : List Char} (hended : MaybeEnded line ended) (c : Char) :
    MaybeEnded (c :: line) (c :: ended) :=
  hended.imp (congrArg (c :: ·)) (congrArg (c :: ·))

theorem forall₂_pushFront {lines others : List (List Char)}
    (hlines : List.Forall₂ MaybeEnded lines others) (c : Char) :
    List.Forall₂ MaybeEnded (pushFront c lines) (pushFront c others) := by
  cases hlines with
  | nil => exact .cons (.inl rfl) .nil
  | cons hfirst hrest => exact .cons (hfirst.cons c) hrest

/-- Both ways of taking the lines that line feeds end give the same lines, up to their ends. -/
theorem forall₂_endedLines (cs : List Char) :
    List.Forall₂ MaybeEnded (feedLines cs) (endedLines cs) := by
  induction cs with
  | nil => exact .nil
  | cons c rest ih =>
    rw [feedLines, endedLines]
    split
    · rename_i hfeed
      exact .cons (.inr (by rw [hfeed, List.nil_append])) ih
    · exact forall₂_pushFront ih c

end Text

end ImportCycles
