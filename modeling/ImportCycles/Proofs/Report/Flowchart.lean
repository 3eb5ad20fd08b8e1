import Mathlib.Data.List.Perm.Subperm
import ImportCycles.Report.Flowchart
import ImportCycles.Proofs.Sorted
import ImportCycles.Proofs.Lookup

namespace ImportCycles

namespace Report

variable {used names before : List String} {base name other id : String} {tries number : Nat}
  {ids : List (String × String)} {edges : List (String × String)}

theorem mem_endpoints : name ∈ endpoints edges ↔ ∃ edge ∈ edges, name = edge.1 ∨ name = edge.2 := by
  simp [endpoints]

theorem numbered_inj {n : Nat} (heq : base ++ "_" ++ toString number = base ++ "_" ++ toString n) :
    number = n := by
  have hdigits := congrArg (fun s => Nat.ofDigitChars 10 s.toList 0)
    ((String.append_right_inj _).mp heq)
  simpa [Nat.toString_eq_ofList_toDigits] using hdigits

/-- If the search comes back with an identifier in use, all that it tried are in use. -/
theorem mem_used_of_freshFrom (hused : freshFrom used base tries number ∈ used) :
    ∀ k ≤ tries, base ++ "_" ++ toString (number + k) ∈ used := by
  induction tries generalizing number with
  | zero =>
    intro k hk
    obtain rfl : k = 0 := by omega
    exact hused
  | succ tries ih =>
    rw [freshFrom] at hused
    split at hused
    · rename_i hfirst
      intro k hk
      cases k with
      | zero => simpa using hfirst
      | succ k =>
        have hnext := ih hused k (by omega)
        rwa [Nat.add_assoc, Nat.add_comm 1 k] at hnext
    · rename_i hfirst
      exact absurd (List.contains_iff_mem.mpr hused) hfirst

theorem freshId_notMem (used : List String) (base : String) : freshId used base ∉ used := by
  unfold freshId
  split
  · intro hused
    have htried := mem_used_of_freshFrom hused
    have hdistinct : ((List.range (used.length + 1)).map
        fun k => base ++ "_" ++ toString (2 + k)).Nodup := by
      refine List.nodup_range.map fun i j heq => ?_
      have hnumber := numbered_inj heq
      omega
    have hsubset : (List.range (used.length + 1)).map
        (fun k => base ++ "_" ++ toString (2 + k)) ⊆ used := by
      intro candidate hmem
      obtain ⟨k, hk, rfl⟩ := List.mem_map.mp hmem
      exact htried k (Nat.lt_succ_iff.mp (List.mem_range.mp hk))
    have hlength := (hdistinct.subperm hsubset).length_le
    simp only [List.length_map, List.length_range] at hlength
    omega
  · rename_i hfree
    exact fun hused => hfree (List.contains_iff_mem.mpr hused)

/-- Identifiers given out so far, one for each name, all different. -/
structure Assigned (names : List String) (ids : List (String × String)) (used : List String) :
    Prop where
  keys_eq : ids.map (·.1) = names
  mem_used_iff : ∀ id, id ∈ used ↔ id ∈ ids.map (·.2)
  distinct : (ids.map (·.2)).Nodup

theorem Assigned.concat (hassigned : Assigned before ids used) (hfree : id ∉ used) (name : String) :
    Assigned (before ++ [name]) (ids ++ [(name, id)]) (id :: used) := by
  refine ⟨by simp [hassigned.keys_eq], ?_, ?_⟩
  · intro other
    rw [List.mem_cons, hassigned.mem_used_iff, List.map_append, List.mem_append]
    simp [or_comm]
  · rw [List.map_append, List.nodup_append_comm]
    exact List.nodup_cons.mpr ⟨fun hmem => hfree ((hassigned.mem_used_iff id).mpr hmem),
      hassigned.distinct⟩

/-- One step of the assignment: the identifiers so far, and those in use. -/
def assignNext (sofar : List (String × String) × List String) (name : String) :
    List (String × String) × List String :=
  (sofar.1 ++ [(name, freshId sofar.2 (sanitize name))],
    freshId sofar.2 (sanitize name) :: sofar.2)

theorem Assigned.foldl (hassigned : Assigned before ids used) (names : List String) :
    Assigned (before ++ names) (names.foldl assignNext (ids, used)).1
      (names.foldl assignNext (ids, used)).2 := by
  induction names generalizing before ids used with
  | nil => simpa using hassigned
  | cons name rest ih =>
    rw [List.append_cons]
    exact ih (hassigned.concat (freshId_notMem _ _) name)

theorem assigned_assignIds (names : List String) :
    Assigned names (assignIds names) (names.foldl assignNext ([], [])).2 := by
  have hnone : Assigned [] [] [] := ⟨rfl, by simp, .nil⟩
  exact hnone.foldl names

theorem lookup_assignIds (hname : name ∈ names) :
    (assignIds names).lookup name = some (idOf (assignIds names) name) := by
  unfold idOf
  cases hlookup : (assignIds names).lookup name with
  | some id => rfl
  | none =>
    rw [← (assigned_assignIds names).keys_eq, List.mem_map] at hname
    obtain ⟨entry, hentry, rfl⟩ := hname
    have hother := List.lookup_eq_none_iff.mp hlookup entry hentry
    simp at hother

/-- Different names have different identifiers. -/
theorem idOf_inj (hname : name ∈ names) (hother : other ∈ names) :
    idOf (assignIds names) name = idOf (assignIds names) other ↔ name = other := by
  refine ⟨fun heq => ?_, fun heq => heq ▸ rfl⟩
  have hfirst := mem_of_lookup (lookup_assignIds hname)
  have hsecond := mem_of_lookup (lookup_assignIds hother)
  rw [← heq] at hsecond
  have hdistinct := (assigned_assignIds names).distinct
  exact congrArg Prod.fst (List.inj_on_of_nodup_map hdistinct hfirst hsecond rfl)

end Report

end ImportCycles
