import ImportCycles.Proofs.Disk.Change

namespace ImportCycles

/-- A path with a NUL in one of its names. -/
def Path.HasNul (p : Path) : Prop :=
  ∃ part ∈ p.parts, Char.ofNat 0 ∈ part.toList

theorem Path.exists_segment {c : Char} {cs : List Char} (hc : c ∈ cs) (hslash : c ≠ '/') :
    ∃ segment ∈ segments cs, c ∈ segment := by
  induction cs with
  | nil => cases hc
  | cons first rest ih =>
    rw [segments]
    split
    · rename_i hfirst
      have hrest : c ∈ rest := (List.mem_cons.mp hc).resolve_left fun heq => hslash (heq ▸ hfirst)
      obtain ⟨segment, hsegment, hin⟩ := ih hrest
      exact ⟨segment, .tail _ hsegment, hin⟩
    · split
      · rename_i hnil
        rcases List.mem_cons.mp hc with rfl | hrest
        · exact ⟨[c], by simp, by simp⟩
        · obtain ⟨segment, hsegment, _⟩ := ih hrest
          simp [hnil] at hsegment
      · rename_i piece more hpieces
        rcases List.mem_cons.mp hc with rfl | hrest
        · exact ⟨c :: piece, by simp, by simp⟩
        · obtain ⟨segment, hsegment, hin⟩ := ih hrest
          rw [hpieces] at hsegment
          rcases List.mem_cons.mp hsegment with rfl | hmore
          · exact ⟨first :: segment, by simp, .tail _ hin⟩
          · exact ⟨segment, .tail _ hmore, hin⟩

/-- No character of a text but slashes and single dots is lost when it is read as a path. -/
theorem Path.hasNul_ofString_iff {s : String} :
    (ofString s).HasNul ↔ Char.ofNat 0 ∈ s.toList := by
  constructor
  · rintro ⟨part, hpart, hnul⟩
    by_contra hfree
    exact notMem_of_mem_parts hfree hpart hnul
  · intro hnul
    obtain ⟨segment, hsegment, hin⟩ := exists_segment hnul (by decide)
    have hkept : segment ≠ [] ∧ segment ≠ ['.'] := by
      constructor
      · rintro rfl
        cases hin
      · rintro rfl
        simp at hin
    refine ⟨String.ofList segment, List.mem_map_of_mem (List.mem_filter.mpr ⟨hsegment, ?_⟩), ?_⟩
    · simpa using hkept
    · simpa using hin

namespace Disk

variable {d : Disk} {p : Path}

theorem locate_eq_embeddedNul_iff : d.locate p = .fault .embeddedNul ↔ p.HasNul := by
  have hnul : p.HasNul ↔ p.parts.any (·.toList.contains (Char.ofNat 0)) = true := by
    simp [Path.HasNul]
  rw [hnul, locate]
  split
  · rename_i hany
    exact iff_of_true rfl hany
  · rename_i hany
    exact iff_of_false (follow_ne_embeddedNul _ _ _ _) hany

theorem find_eq_embeddedNul_iff : d.find p = .error .embeddedNul ↔ p.HasNul := by
  rw [← locate_eq_embeddedNul_iff (d := d), find]
  cases d.locate p with
  | found place left => cases hat : d.top.at? place <;> simp [hat]
  | absent => simp
  | fault reason => simp

theorem read_eq_embeddedNul_iff : d.read p = .error .embeddedNul ↔ p.HasNul := by
  rw [← find_eq_embeddedNul_iff (d := d), read]
  cases d.find p with
  | ok found =>
    obtain ⟨place, node⟩ := found
    cases node <;> simp
  | error reason => simp

/-- Only its own text can make a path one that no system takes. -/
theorem write_eq_embeddedNul_iff {bytes : List UInt8} :
    d.write p bytes = .error .embeddedNul ↔ p.HasNul := by
  rw [← locate_eq_embeddedNul_iff (d := d), write]
  cases d.locate p with
  | found place left =>
    dsimp only
    split <;> simp
  | absent => simp
  | fault reason => simp

/-- Only of a name that is too long it cannot be said whether it stands for a file. -/
theorem isFile_eq_error_iff {reason : Fault} :
    d.isFile p = .error reason ↔ d.find p = .error .nameTooLong ∧ reason = .nameTooLong := by
  rw [isFile]
  cases d.find p with
  | ok found => simp
  | error fault => cases fault <;> simp [eq_comm]

end Disk

end ImportCycles
