namespace ImportCycles

variable {α : Type} {sep : List α} {pieces : List (List α)}

/-- What holds of the separator and of the pieces holds of all they make up. -/
theorem forall_mem_intercalate {p : α → Prop} (hsep : ∀ x ∈ sep, p x)
    (hpieces : ∀ piece ∈ pieces, ∀ x ∈ piece, p x) : ∀ x ∈ sep.intercalate pieces, p x := by
  induction pieces with
  | nil => simp
  | cons first rest ih =>
    obtain ⟨hfirst, hrest⟩ := List.forall_mem_cons.mp hpieces
    cases rest with
    | nil => rwa [List.intercalate_singleton]
    | cons second more =>
      rw [List.intercalate_cons_cons]
      simp only [List.mem_append]
      rintro x ((hx | hx) | hx)
      · exact hfirst x hx
      · exact hsep x hx
      · exact ih hrest x hx

theorem infix_intercalate {piece : List α} (hpiece : piece ∈ pieces) :
    piece <:+: sep.intercalate pieces := by
  induction pieces with
  | nil => cases hpiece
  | cons first rest ih =>
    cases rest with
    | nil => simp [List.mem_singleton.mp hpiece]
    | cons second more =>
      rw [List.intercalate_cons_cons]
      rcases List.mem_cons.mp hpiece with rfl | hrest
      · exact ((List.prefix_append _ _).trans (List.prefix_append _ _)).isInfix
      · exact (ih hrest).trans (List.suffix_append _ _).isInfix

theorem intercalate_concat (sep : List α) (pieces : List (List α)) (last : List α) :
    sep.intercalate (pieces ++ [last]) = pieces.flatMap (· ++ sep) ++ last := by
  induction pieces with
  | nil => simp
  | cons first rest ih =>
    cases rest with
    | nil => simp
    | cons second others =>
      rw [List.cons_append, List.cons_append, List.intercalate_cons_cons, ← List.cons_append, ih]
      simp only [List.flatMap_cons, List.append_assoc]

theorem exists_intercalate_cons (sep first : List α) (rest : List (List α)) :
    ∃ more, sep.intercalate (first :: rest) = first ++ more := by
  cases rest with
  | nil => exact ⟨[], by rw [List.intercalate_singleton, List.append_nil]⟩
  | cons second others =>
    exact ⟨sep ++ sep.intercalate (second :: others),
      by rw [List.intercalate_cons_cons, List.append_assoc]⟩

/-- Lines that are joined by line breaks, and hold none themselves, come apart again. -/
theorem splitOn_intercalate_newline {lines : List String} (hne : lines ≠ [])
    (hlines : ∀ line ∈ lines, '\n' ∉ line.toList) :
    ("\n".intercalate lines).toList.splitOn '\n' = lines.map String.toList := by
  rw [String.toList_intercalate]
  exact List.splitOn_intercalate '\n' (List.forall_mem_map.mpr hlines) (by simpa using hne)

end ImportCycles
