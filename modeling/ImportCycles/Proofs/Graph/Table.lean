import Mathlib.Data.List.Basic
import ImportCycles.Graph.Table

namespace ImportCycles

namespace Table

/-- An edge of a table leads from a key to each name in its row. -/
def Edge (t : Table) (a b : String) : Prop :=
  b ∈ t.row a

instance (t : Table) : DecidableRel t.Edge :=
  fun a b => inferInstanceAs (Decidable (b ∈ t.row a))

/-- No row is empty: a key goes away together with its last name. -/
def Tight (t : Table) : Prop :=
  ∀ entry ∈ t.rows, entry.2 ≠ []

theorem row_nil (name : String) : (Table.mk []).row name = [] :=
  rfl

theorem not_edge_nil (a b : String) : ¬ (Table.mk []).Edge a b :=
  List.not_mem_nil

theorem row_cons (key : String) (values : List String) (rest : List (String × List String))
    (name : String) :
    (Table.mk ((key, values) :: rest)).row name =
      if name = key then values else (Table.mk rest).row name := by
  by_cases hname : name = key
  · simp [row, hname]
  · simp only [row, List.lookup_cons, beq_eq_false_iff_ne.mpr hname, if_neg hname]

/-- Insertion adds to one row, at its end, and only what is new there. -/
theorem row_insert (t : Table) (key value name : String) :
    (t.insert key value).row name =
      if name = key ∧ value ∉ t.row key then t.row key ++ [value] else t.row name := by
  obtain ⟨rows⟩ := t
  change (Table.mk (extendRow key value rows)).row name = _
  induction rows with
  | nil => by_cases hname : name = key <;> simp [extendRow, row_cons, row_nil, hname]
  | cons entry rest ih =>
    obtain ⟨k, values⟩ := entry
    by_cases hk : k = key
    · subst hk
      by_cases hname : name = k <;> by_cases hmem : value ∈ values <;>
        simp [extendRow, row_cons, hname, hmem]
    · simp only [extendRow, if_neg hk, row_cons, ih, if_neg (Ne.symm hk)]
      by_cases hname : name = k
      · have hne : name ≠ key := fun h => hk (hname.symm.trans h)
        simp [hname, hk]
      · simp only [if_neg hname]

theorem edge_insert_iff (t : Table) (key value a b : String) :
    (t.insert key value).Edge a b ↔ t.Edge a b ∨ (a = key ∧ b = value) := by
  unfold Edge
  rw [row_insert]
  by_cases hkey : a = key
  · subst hkey
    by_cases hmem : value ∈ t.row a
    · simp only [hmem, not_true_eq_false, and_false, if_false, true_and]
      exact ⟨.inl, fun h => h.elim id (fun hb => hb ▸ hmem)⟩
    · simp [hmem]
  · simp [hkey]

theorem mem_keys_of_edge {t : Table} {a b : String} (hedge : t.Edge a b) : a ∈ t.keys := by
  obtain ⟨rows⟩ := t
  unfold Edge at hedge
  induction rows with
  | nil => simp [row_nil] at hedge
  | cons entry rest ih =>
    obtain ⟨k, values⟩ := entry
    rw [row_cons] at hedge
    by_cases hk : a = k
    · simp [keys, hk]
    · rw [if_neg hk] at hedge
      exact List.mem_cons_of_mem k (ih hedge)

theorem Tight.insert {t : Table} (htight : t.Tight) (key value : String) :
    (t.insert key value).Tight := by
  obtain ⟨rows⟩ := t
  change ∀ entry ∈ extendRow key value rows, entry.2 ≠ []
  induction rows with
  | nil => simp [extendRow]
  | cons head rest ih =>
    obtain ⟨k, values⟩ := head
    obtain ⟨hhead, hrest⟩ := List.forall_mem_cons.mp htight
    simp only [extendRow]
    split
    · refine List.forall_mem_cons.mpr ⟨?_, hrest⟩
      by_cases hmem : value ∈ values
      · simpa [hmem] using hhead
      · simp [hmem]
    · exact List.forall_mem_cons.mpr ⟨hhead, ih hrest⟩

/-- Taking out an edge that was new restores the table, with its keys and the order of its rows. -/
theorem erase_insert {t : Table} (htight : t.Tight) {key value : String}
    (hnew : ¬ t.Edge key value) : (t.insert key value).erase key value = t := by
  obtain ⟨rows⟩ := t
  refine congrArg Table.mk ?_
  change shrinkRow key value (extendRow key value rows) = rows
  unfold Edge at hnew
  induction rows with
  | nil => simp [extendRow, shrinkRow]
  | cons head rest ih =>
    obtain ⟨k, values⟩ := head
    obtain ⟨hhead, hrest⟩ := List.forall_mem_cons.mp htight
    rw [row_cons] at hnew
    by_cases hk : k = key
    · subst hk
      rw [if_pos rfl] at hnew
      have herase : (values ++ [value]).erase value = values := by
        rw [List.erase_append_right _ hnew]
        simp
      cases values with
      | nil => exact absurd rfl hhead
      | cons v vs => simp only [extendRow, shrinkRow, if_true, if_neg hnew, herase]
    · rw [if_neg (Ne.symm hk)] at hnew
      simp only [extendRow, shrinkRow, if_neg hk, ih hrest hnew]

/-- Inserting a stored edge changes nothing. -/
theorem insert_of_edge {t : Table} {key value : String} (hedge : t.Edge key value) :
    t.insert key value = t := by
  obtain ⟨rows⟩ := t
  refine congrArg Table.mk ?_
  unfold Edge at hedge
  induction rows with
  | nil => simp [row_nil] at hedge
  | cons head rest ih =>
    obtain ⟨k, values⟩ := head
    rw [row_cons] at hedge
    by_cases hk : k = key
    · subst hk
      rw [if_pos rfl] at hedge
      simp only [extendRow, if_true, if_pos hedge]
    · rw [if_neg (Ne.symm hk)] at hedge
      simp only [extendRow, if_neg hk, ih hedge]

theorem keys_insert (t : Table) (key value : String) :
    (t.insert key value).keys = if key ∈ t.keys then t.keys else t.keys ++ [key] := by
  obtain ⟨rows⟩ := t
  change (extendRow key value rows).map (·.1) =
    if key ∈ rows.map (·.1) then rows.map (·.1) else rows.map (·.1) ++ [key]
  induction rows with
  | nil => simp [extendRow]
  | cons head rest ih =>
    obtain ⟨k, values⟩ := head
    by_cases hk : k = key
    · simp [extendRow, hk]
    · simp only [extendRow, if_neg hk, List.map_cons, ih, List.mem_cons, Ne.symm hk, false_or]
      split <;> simp

/-- A unit is a key exactly while its row holds a name. -/
theorem Tight.mem_keys_iff {t : Table} (htight : t.Tight) {key : String} :
    key ∈ t.keys ↔ t.row key ≠ [] := by
  obtain ⟨rows⟩ := t
  induction rows with
  | nil => simp [keys, row_nil]
  | cons head rest ih =>
    obtain ⟨k, values⟩ := head
    obtain ⟨hhead, hrest⟩ := List.forall_mem_cons.mp htight
    rw [row_cons]
    by_cases hk : key = k
    · simpa [keys, hk] using hhead
    · simpa [keys, hk] using ih hrest

end Table

end ImportCycles
