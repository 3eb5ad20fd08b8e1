import Mathlib.Data.List.Nodup

namespace ImportCycles

variable {α β : Type} [BEq α] [LawfulBEq α] {entries : List (α × β)} {key : α} {value : β}

theorem mem_of_lookup (hlookup : entries.lookup key = some value) : (key, value) ∈ entries := by
  obtain ⟨before, after, rfl, _⟩ := List.lookup_eq_some_iff.mp hlookup
  exact List.mem_append_right _ (.head _)

/-- Where keys are distinct, no entry hides another. -/
theorem lookup_of_mem (hdistinct : (entries.map (·.1)).Nodup) (hmem : (key, value) ∈ entries) :
    entries.lookup key = some value := by
  induction entries with
  | nil => cases hmem
  | cons entry rest ih =>
    rw [List.map_cons, List.nodup_cons] at hdistinct
    rcases List.mem_cons.mp hmem with rfl | hrest
    · simp
    · have hother : (key == entry.1) = false := by
        rw [beq_eq_false_iff_ne]
        rintro rfl
        exact hdistinct.1 (List.mem_map.mpr ⟨_, hrest, rfl⟩)
      rw [List.lookup_cons, hother]
      exact ih hdistinct.2 hrest

end ImportCycles
