import Mathlib.Data.List.Infix
import ImportCycles.Route

namespace ImportCycles

namespace Route

/-- An arrow without its last blank. After a name that ends so, the arrow seems to start too
    early. -/
def arrowHead : String := " ->"

/-- A name that stays in one piece wherever it stands in a route. -/
structure Plain (unit : String) : Prop where
  noArrow : ¬ arrow.toList <:+: unit.toList
  noArrowHead : ¬ arrowHead.toList <:+ unit.toList

instance (unit : String) : Decidable (Plain unit) :=
  decidable_of_iff (¬ arrow.toList <:+: unit.toList ∧ ¬ arrowHead.toList <:+ unit.toList)
    ⟨fun h => ⟨h.1, h.2⟩, fun h => ⟨h.noArrow, h.noArrowHead⟩⟩

theorem pieces_ne_nil (cs : List Char) : pieces cs ≠ [] := by
  fun_cases pieces cs with
  | case1 => simp
  | case2 => simp
  | case3 => simp
  | case4 => simp

/-- Where no arrow starts, a character joins the piece after it. -/
theorem pieces_cons {c : Char} {rest : List Char} (hnone : ¬ arrow.toList <+: c :: rest) :
    pieces (c :: rest) = (pieces rest).modifyHead (c :: ·) := by
  have hrest := pieces_ne_nil rest
  rw [pieces]
  · cases hpieces : pieces rest with
    | nil => exact absurd hpieces hrest
    | cons piece more => rfl
  · rintro after rfl rfl
    exact hnone ⟨after, rfl⟩

theorem pieces_arrow (rest : List Char) : pieces (arrow.toList ++ rest) = [] :: pieces rest :=
  rfl

theorem pieces_of_noArrow {unit : List Char} (hfree : ¬ arrow.toList <:+: unit) :
    pieces unit = [unit] := by
  induction unit with
  | nil => rfl
  | cons c rest ih =>
    have htail : ¬ arrow.toList <:+: rest := fun h => hfree (List.infix_cons h)
    rw [pieces_cons fun h => hfree h.isInfix, ih htail]
    rfl

/-- An arrow that starts inside a name and goes on after it takes the name's last three
    characters: after fewer, the arrow that follows has a blank where a dash or a point is due. -/
private theorem not_prefix_append {unit rest : List Char} (hne : unit ≠ [])
    (hfree : ¬ arrow.toList <:+: unit) (hend : ¬ arrowHead.toList <:+ unit) :
    ¬ arrow.toList <+: unit ++ (arrow.toList ++ rest) := by
  rintro ⟨after, hstart⟩
  have harrow : arrow.toList = [' ', '-', '>', ' '] := rfl
  rw [harrow] at hstart
  match unit with
  | [] => exact hne rfl
  | [_] => simp at hstart
  | [_, _] => simp at hstart
  | [a, b, c] =>
    obtain ⟨rfl, rfl, rfl⟩ : ' ' = a ∧ '-' = b ∧ '>' = c := by
      simp only [List.cons_append, List.nil_append, List.cons.injEq] at hstart
      exact ⟨hstart.1, hstart.2.1, hstart.2.2.1⟩
    exact hend List.suffix_rfl
  | a :: b :: c :: d :: more =>
    obtain ⟨rfl, rfl, rfl, rfl⟩ : ' ' = a ∧ '-' = b ∧ '>' = c ∧ ' ' = d := by
      simp only [List.cons_append, List.nil_append, List.cons.injEq] at hstart
      exact ⟨hstart.1, hstart.2.1, hstart.2.2.1, hstart.2.2.2.1⟩
    exact hfree ⟨[], more, rfl⟩

/-- The first arrow after a plain name is the one that was put there. -/
theorem pieces_append_arrow {unit : List Char} (hfree : ¬ arrow.toList <:+: unit)
    (hend : ¬ arrowHead.toList <:+ unit) (rest : List Char) :
    pieces (unit ++ (arrow.toList ++ rest)) = unit :: pieces rest := by
  induction unit with
  | nil => exact pieces_arrow rest
  | cons c unit ih =>
    have hfreeTail : ¬ arrow.toList <:+: unit := fun h => hfree (List.infix_cons h)
    have hendTail : ¬ arrowHead.toList <:+ unit := fun h => hend (h.trans (List.suffix_cons c unit))
    have hnone : ¬ arrow.toList <+: c :: (unit ++ (arrow.toList ++ rest)) :=
      not_prefix_append (List.cons_ne_nil c unit) hfree hend
    rw [List.cons_append, pieces_cons hnone, ih hfreeTail hendTail]
    rfl

theorem pieces_intercalate {names : List (List Char)} (hne : names ≠ [])
    (hfree : ∀ name ∈ names, ¬ arrow.toList <:+: name)
    (hend : ∀ name ∈ names.dropLast, ¬ arrowHead.toList <:+ name) :
    pieces (arrow.toList.intercalate names) = names := by
  induction names with
  | nil => exact absurd rfl hne
  | cons first others ih =>
    cases others with
    | nil => simpa using pieces_of_noArrow (hfree first (by simp))
    | cons second more =>
      obtain ⟨hfirst, hothers⟩ := List.forall_mem_cons.mp hfree
      rw [List.dropLast_cons_cons] at hend
      obtain ⟨hfirstEnd, hothersEnd⟩ := List.forall_mem_cons.mp hend
      rw [List.intercalate_cons_cons, List.append_assoc, pieces_append_arrow hfirst hfirstEnd,
        ih (by simp) hothers hothersEnd]

theorem join_eq_empty_iff {units : List String} : join units = "" ↔ units = [] ∨ units = [""] := by
  match units with
  | [] => simp [join]
  | [unit] => simp [join]
  | first :: second :: more =>
    have harrow : arrow ≠ "" := by decide
    simp [join, String.intercalate_cons_cons, harrow]

theorem split_of_ne_empty {route : String} (hne : route ≠ "") :
    split route = (pieces route.toList).map String.ofList := by
  rw [split, if_neg (by simpa using hne)]

/-- A route splits back into its names if no name holds an arrow and none but the last ends with
    the head of one. -/
theorem split_join {units : List String} (hne : units ≠ []) (hnot : units ≠ [""])
    (hfree : ∀ unit ∈ units, ¬ arrow.toList <:+: unit.toList)
    (hend : ∀ unit ∈ units.dropLast, ¬ arrowHead.toList <:+ unit.toList) :
    split (join units) = units := by
  have hnonempty : join units ≠ "" := fun h => (join_eq_empty_iff.mp h).elim hne hnot
  have hpieces : pieces (join units).toList = units.map String.toList := by
    rw [join, String.toList_intercalate]
    refine pieces_intercalate (by simpa using hne) (by simpa using hfree) ?_
    rw [← List.map_dropLast]
    exact List.forall_mem_map.mpr hend
  rw [split_of_ne_empty hnonempty, hpieces, List.map_map]
  simp [Function.comp_def]

theorem split_join_of_plain {units : List String} (hne : units ≠ []) (hnot : units ≠ [""])
    (hplain : ∀ unit ∈ units, Plain unit) : split (join units) = units :=
  split_join hne hnot (fun unit hunit => (hplain unit hunit).noArrow)
    fun unit hunit => (hplain unit (List.dropLast_subset _ hunit)).noArrowHead

/-- Nothing is lost at a cut but the arrow. -/
theorem intercalate_pieces (cs : List Char) : arrow.toList.intercalate (pieces cs) = cs := by
  fun_induction pieces cs with
  | case1 => rfl
  | case2 rest ih =>
    obtain ⟨piece, more, hpieces⟩ := List.exists_cons_of_ne_nil (pieces_ne_nil rest)
    rw [hpieces] at ih ⊢
    rw [List.intercalate_cons_cons, ih]
    rfl
  | case3 c rest hnone hnil => exact absurd hnil (pieces_ne_nil rest)
  | case4 c rest hnone piece more hpieces ih =>
    rw [hpieces] at ih
    cases more with
    | nil => simpa using ih
    | cons next more =>
      rw [List.intercalate_cons_cons] at ih ⊢
      exact congrArg (c :: ·) ih

/-- A text starts with its first piece, and goes on with an arrow if there are more. -/
theorem pieces_start {cs piece : List Char} {more : List (List Char)}
    (hpieces : pieces cs = piece :: more) :
    piece <+: cs ∧ (more ≠ [] → piece ++ arrow.toList <+: cs) := by
  have hjoined := intercalate_pieces cs
  rw [hpieces] at hjoined
  cases more with
  | nil => simpa using ⟨[], by simpa using hjoined⟩
  | cons next more =>
    rw [List.intercalate_cons_cons] at hjoined
    have hstart : piece ++ arrow.toList <+: cs := ⟨_, hjoined⟩
    exact ⟨(List.prefix_append _ _).trans hstart, fun _ => hstart⟩

/-- An arrow inside a piece would have been cut at. -/
theorem noArrow_of_mem_pieces {cs : List Char} :
    ∀ piece ∈ pieces cs, ¬ arrow.toList <:+: piece := by
  fun_induction pieces cs with
  | case1 => decide
  | case2 rest ih => exact List.forall_mem_cons.mpr ⟨by decide, ih⟩
  | case3 c rest hnone hnil => exact absurd hnil (pieces_ne_nil rest)
  | case4 c rest hnone piece more hpieces ih =>
    rw [hpieces] at ih
    obtain ⟨hpiece, hmore⟩ := List.forall_mem_cons.mp ih
    refine List.forall_mem_cons.mpr ⟨fun hinside => ?_, hmore⟩
    rcases List.infix_cons_iff.mp hinside with hstart | hinside
    · have htext : c :: piece <+: c :: rest :=
        List.cons_prefix_cons.mpr ⟨rfl, (pieces_start hpieces).1⟩
      obtain ⟨after, hafter⟩ := hstart.trans htext
      obtain ⟨rfl, rfl⟩ := List.cons.inj hafter
      exact hnone after rfl rfl
    · exact hpiece hinside

/-- Only the last piece may end with the head of an arrow. After any other the blank of the arrow
    that follows would complete it, and the text would have been cut earlier. -/
theorem noArrowHead_of_mem_pieces {cs : List Char} :
    ∀ piece ∈ (pieces cs).dropLast, ¬ arrowHead.toList <:+ piece := by
  fun_induction pieces cs with
  | case1 => simp
  | case2 rest ih =>
    rw [List.dropLast_cons_of_ne_nil (pieces_ne_nil rest)]
    exact List.forall_mem_cons.mpr ⟨by decide, ih⟩
  | case3 c rest hnone hnil => exact absurd hnil (pieces_ne_nil rest)
  | case4 c rest hnone piece more hpieces ih =>
    cases more with
    | nil => simp
    | cons next more =>
      rw [hpieces, List.dropLast_cons_cons] at ih
      rw [List.dropLast_cons_cons]
      obtain ⟨hpiece, hmore⟩ := List.forall_mem_cons.mp ih
      refine List.forall_mem_cons.mpr ⟨fun hend => ?_, hmore⟩
      rcases List.suffix_cons_iff.mp hend with hwhole | hend
      · obtain ⟨after, hafter⟩ := (pieces_start hpieces).2 (by simp)
        obtain ⟨rfl, rfl⟩ := List.cons.inj hwhole
        exact hnone _ rfl hafter.symm
      · exact hpiece hend

theorem join_split (route : String) : join (split route) = route := by
  by_cases hempty : route = ""
  · rw [hempty]
    rfl
  · rw [split_of_ne_empty hempty, ← String.toList_inj, join, String.toList_intercalate]
    simpa [Function.comp_def] using intercalate_pieces route.toList

/-- The names of a route hold no arrow, and none but the last ends with the head of one. -/
theorem noArrow_of_split {route : String} :
    (∀ unit ∈ split route, ¬ arrow.toList <:+: unit.toList) ∧
      ∀ unit ∈ (split route).dropLast, ¬ arrowHead.toList <:+ unit.toList := by
  by_cases hempty : route = ""
  · simp [hempty, split]
  · rw [split_of_ne_empty hempty, ← List.map_dropLast, List.forall_mem_map, List.forall_mem_map]
    simpa using ⟨noArrow_of_mem_pieces, noArrowHead_of_mem_pieces⟩

/-- Joining gives back every route that was split. Splitting gives back just those names of which
    none holds an arrow and none but the last ends with the head of one; a single empty name is
    taken for no name at all. -/
theorem split_join_exact :
    (∀ route, join (split route) = route) ∧
    ∀ units, split (join units) = units ↔
      units = [] ∨ units ≠ [""] ∧ (∀ unit ∈ units, ¬ arrow.toList <:+: unit.toList) ∧
        ∀ unit ∈ units.dropLast, ¬ arrowHead.toList <:+ unit.toList := by
  refine ⟨join_split, fun units => ?_⟩
  by_cases hne : units = []
  · exact iff_of_true (by rw [hne]; rfl) (.inl hne)
  rw [or_iff_right hne]
  constructor
  · intro hback
    have hnot : units ≠ [""] := by
      rintro rfl
      exact absurd hback (by decide)
    exact ⟨hnot, hback ▸ noArrow_of_split⟩
  · rintro ⟨hnot, hfree, hend⟩
    exact split_join hne hnot hfree hend

example : split (join ["a ->", "b"]) = ["a", "-> b"] := by decide

end Route

end ImportCycles
