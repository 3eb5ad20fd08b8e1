import ImportCycles.Proofs.Disk.Search

namespace ImportCycles

namespace Disk

/-- Sightings below a directory, in the order of the names on the way to them. -/
structure InOrder (above : List String) (seen : List Sighting) : Prop where
  below : ∀ s ∈ seen, above <+: s.names
  increasing : seen.Pairwise (·.names < ·.names)

variable {top node : Node} {f : SearchFilter} {onLink : Position → String → List Sighting}
  {pos : Position} {above : List String} {seen : List Sighting}

theorem inOrder_nil (above : List String) : InOrder above [] :=
  ⟨by simp, .nil⟩

theorem inOrder_singleton (s : Sighting) : InOrder s.names [s] :=
  ⟨by simp, List.pairwise_singleton _ s⟩

/-- The first name in which two ways differ decides. -/
theorem lt_of_prefix {a b : String} {first second : List String} (hlt : a < b)
    (hfirst : above ++ [a] <+: first) (hsecond : above ++ [b] <+: second) : first < second := by
  obtain ⟨more, rfl⟩ := hfirst
  obtain ⟨others, rfl⟩ := hsecond
  rw [List.append_assoc, List.append_assoc]
  exact List.append_left_lt (List.cons_lt_cons_iff.mpr (.inl hlt))

theorem InOrder.flatMap {shown : List (String × List Sighting)}
    (hsorted : shown.Pairwise (·.1 < ·.1))
    (heach : ∀ entry ∈ shown, InOrder (above ++ [entry.1]) entry.2) :
    InOrder above (shown.flatMap (·.2)) := by
  constructor
  · intro s hs
    obtain ⟨entry, hentry, hin⟩ := List.mem_flatMap.mp hs
    exact (List.prefix_append _ _).trans ((heach entry hentry).below s hin)
  · refine List.pairwise_flatMap.mpr ⟨fun entry hentry => (heach entry hentry).increasing, ?_⟩
    refine hsorted.imp_of_mem fun {first second} hfirst hsecond hlt s hs t ht => ?_
    exact lt_of_prefix hlt ((heach first hfirst).below s hs) ((heach second hsecond).below t ht)

/-- Entries with names of their own are sorted strictly. -/
theorem pairwise_lt_of_nodup {α : Type} {entries : List (String × α)}
    (hdistinct : (entries.map (·.1)).Nodup) :
    (insertionSort (fun a b => decide (a.1 ≤ b.1)) entries).Pairwise (·.1 < ·.1) := by
  have hsame := (insertionSort_perm (fun a b => decide (a.1 ≤ b.1)) entries).map (·.1)
  have hapart := List.pairwise_map.mp (hsame.nodup_iff.mpr hdistinct)
  exact (insertionSort_pairwise_key (·.1) entries).imp₂ (fun _ _ => lt_of_le_ne) hapart

theorem inOrder_sightFile (f : SearchFilter) (pos : Position) (name : String) :
    InOrder (pos.names ++ [name]) (sightFile f pos name) := by
  unfold sightFile
  split
  · exact inOrder_singleton (.file (pos.names ++ [name]))
  · exact inOrder_nil _

theorem inOrder_sightDir (hlink : ∀ pos name, InOrder (pos.names ++ [name]) (onLink pos name))
    (node : Node) (hproper : node.Proper) (pos : Position) :
    InOrder pos.names (sightDir f onLink pos node) := by
  match node, hproper with
  | .file bytes, _ => exact inOrder_nil _
  | .link target, _ => exact inOrder_nil _
  | .dir entries, .dir hdistinct _ hproper =>
    rw [sightDir]
    split
    · exact inOrder_nil _
    · rw [sightEntries_eq]
      refine InOrder.flatMap (pairwise_lt_of_nodup (by simpa [Function.comp_def] using hdistinct)) ?_
      intro entry hshown
      obtain ⟨⟨name, child⟩, hmem, rfl⟩ :=
        List.mem_map.mp ((insertionSort_perm _ _).mem_iff.mp hshown)
      cases child with
      | file bytes => exact inOrder_sightFile f pos name
      | link target => exact hlink pos name
      | dir below =>
        simp only [sightEntry]
        split
        · exact inOrder_nil _
        · exact inOrder_sightDir hlink (.dir below) (hproper _ hmem)
            (pos.enter name (pos.place ++ [name]))
termination_by sizeOf node
decreasing_by exact Node.sizeOf_lt_of_mem hmem

/-- The sightings of a search come in the order of the names on the way to them. -/
theorem inOrder_sightings (htop : top.Proper) (hproper : node.Proper) (hops links : Nat)
    (pos : Position) : InOrder pos.names (sightings top f hops links pos node) := by
  induction hops generalizing links pos node with
  | zero =>
    rw [sightings_eq]
    exact inOrder_sightDir (fun _ _ => inOrder_nil _) node hproper pos
  | succ hops ih =>
    rw [sightings_eq]
    refine inOrder_sightDir ?_ node hproper pos
    intro pos name
    rw [sightLink]
    split
    · rename_i reached left hfollow
      split
      · exact inOrder_sightFile f pos name
      · rename_i hnode
        split
        · exact inOrder_nil _
        · exact ih (htop.at? hnode) left (pos.enter name reached)
      · exact inOrder_nil _
    · exact inOrder_singleton (.unreadable (pos.names ++ [name]))
    · exact inOrder_nil _

end Disk

end ImportCycles
