import ImportCycles.Disk.Search
import ImportCycles.Proofs.Disk.Follow
import ImportCycles.Proofs.Sorted

namespace ImportCycles

namespace Disk

variable {f : SearchFilter} {onLink : Position → String → List Sighting} {pos : Position}
  {s : Sighting} {top node : Node} {name : String} {entries : List (String × Node)}

/-- The sightings at one entry of a directory. -/
def sightEntry (f : SearchFilter) (onLink : Position → String → List Sighting) (pos : Position)
    (name : String) : Node → List Sighting
  | .dir entries =>
    if f.excludes name then []
    else sightDir f onLink (pos.enter name (pos.place ++ [name])) (.dir entries)
  | .file _ => sightFile f pos name
  | .link _ => onLink pos name

theorem sightEntries_eq (f : SearchFilter) (onLink : Position → String → List Sighting)
    (pos : Position) (entries : List (String × Node)) :
    sightEntries f onLink pos entries =
      entries.map fun entry => (entry.1, sightEntry f onLink pos entry.1 entry.2) := by
  induction entries with
  | nil => rfl
  | cons entry rest ih =>
    obtain ⟨name, node⟩ := entry
    rw [sightEntries, ih]
    cases node <;> rfl

/-- A directory shows what its entries show, unless it lies too deep. -/
theorem mem_sightDir_iff : s ∈ sightDir f onLink pos (.dir entries) ↔
    f.stopsAt pos.depth = false ∧
      ∃ entry ∈ entries, s ∈ sightEntry f onLink pos entry.1 entry.2 := by
  rw [sightDir]
  split
  · simp_all
  · rename_i hopen
    simp [hopen, (insertionSort_perm _ _).mem_iff, sightEntries_eq]

theorem mem_sightFile_iff :
    s ∈ sightFile f pos name ↔ f.selects name = true ∧ s = .file (pos.names ++ [name]) := by
  unfold sightFile
  split
  · rename_i hselects
    simp [hselects]
  · rename_i hselects
    simp [hselects]

/-- The sightings at a link. -/
def sightLink (top : Node) (f : SearchFilter) (hops links : Nat) (pos : Position) (name : String) :
    List Sighting :=
  match hops with
  | 0 => []
  | hops + 1 =>
    match follow top links pos.place [name] with
    | .found place links =>
      match top.at? place with
      | some (.file _) => sightFile f pos name
      | some node =>
        if f.excludes name then [] else sightings top f hops links (pos.enter name place) node
      | none => []
    | .fault .nameTooLong => [.unreadable (pos.names ++ [name])]
    | _ => []

theorem sightings_eq (top : Node) (f : SearchFilter) (hops links : Nat) (pos : Position)
    (node : Node) :
    sightings top f hops links pos node = sightDir f (sightLink top f hops links) pos node := by
  cases hops <;> rw [sightings] <;> rfl

variable {d : Disk} {hops links left : Nat} {reached : List String} {child : Node}

/-- A search that stands somewhere, with so many links left to follow, comes to a sighting: at an
    entry of the directory where it stands, or below one that leads to a directory. -/
inductive Comes (top : Node) (f : SearchFilter) : Nat → Position → Sighting → Prop where
  | file {links left : Nat} {pos : Position} {name : String} {child : Node}
      {reached : List String} {bytes : List UInt8} (hopen : f.stopsAt pos.depth = false)
      (hentry : top.at? (pos.place ++ [name]) = some child)
      (hfollow : follow top links pos.place [name] = .found reached left)
      (hat : top.at? reached = some (.file bytes)) (hselects : f.selects name = true) :
      Comes top f links pos (.file (pos.names ++ [name]))
  | unreadable {links : Nat} {pos : Position} {name : String} {child : Node}
      (hopen : f.stopsAt pos.depth = false)
      (hentry : top.at? (pos.place ++ [name]) = some child)
      (hfollow : follow top links pos.place [name] = .fault .nameTooLong) :
      Comes top f links pos (.unreadable (pos.names ++ [name]))
  | enter {links left : Nat} {pos : Position} {name : String} {child : Node}
      {reached : List String} {s : Sighting} (hopen : f.stopsAt pos.depth = false)
      (hentry : top.at? (pos.place ++ [name]) = some child)
      (hfollow : follow top links pos.place [name] = .found reached left)
      (hentered : f.excludes name = false) (hbelow : Comes top f left (pos.enter name reached) s) :
      Comes top f links pos s

/-- A search comes to something only where it stands in a directory. -/
theorem Comes.exists_dir (hcomes : Comes top f links pos s) :
    ∃ entries, top.at? pos.place = some (.dir entries) := by
  cases hcomes with
  | file _ hentry | unreadable _ hentry | enter _ hentry =>
    obtain ⟨entries, _, hparent, -⟩ := Node.exists_parent hentry
    exact ⟨entries, hparent⟩

/-- A search comes to what it sees below a directory if it comes to what it sees at the links
    there. -/
theorem comes_of_mem_sightDir (hproper : top.Proper)
    (hlink : ∀ pos name child, f.stopsAt pos.depth = false →
      top.at? (pos.place ++ [name]) = some child → ∀ s ∈ onLink pos name, Comes top f links pos s)
    (node : Node) {pos : Position} (hat : top.at? pos.place = some node)
    (hs : s ∈ sightDir f onLink pos node) : Comes top f links pos s := by
  match node with
  | .file bytes => cases hs
  | .link target => cases hs
  | .dir entries =>
    obtain ⟨hopen, ⟨name, child⟩, hmem, hsight⟩ := mem_sightDir_iff.mp hs
    have hentry := hproper.at?_entry hat hmem
    have hfollow := follow_of_at? hproper hentry
    cases child with
    | file bytes =>
      obtain ⟨hselects, rfl⟩ := mem_sightFile_iff.mp hsight
      exact .file hopen hentry (hfollow (by simp) links) hentry hselects
    | link target => exact hlink pos name _ hopen hentry s hsight
    | dir below =>
      simp only [sightEntry] at hsight
      split at hsight
      · cases hsight
      · rename_i hentered
        have hbelow : Comes top f links (pos.enter name (pos.place ++ [name])) s :=
          comes_of_mem_sightDir hproper hlink (.dir below) hentry hsight
        exact .enter hopen hentry (hfollow (by simp) links) (by simpa using hentered) hbelow
termination_by sizeOf node
decreasing_by exact Node.sizeOf_lt_of_mem hmem

theorem comes_of_mem_sightings (hproper : top.Proper) (hat : top.at? pos.place = some node)
    (hs : s ∈ sightings top f hops links pos node) : Comes top f links pos s := by
  induction hops generalizing s links pos node with
  | zero =>
    rw [sightings_eq] at hs
    exact comes_of_mem_sightDir hproper (by simp [sightLink]) node hat hs
  | succ hops ih =>
    rw [sightings_eq] at hs
    refine comes_of_mem_sightDir hproper ?_ node hat hs
    intro pos name child hopen hentry seen hseen
    rw [sightLink] at hseen
    split at hseen
    · rename_i reached left hfollow
      split at hseen
      · rename_i hfile
        obtain ⟨hselects, rfl⟩ := mem_sightFile_iff.mp hseen
        exact .file hopen hentry hfollow hfile hselects
      · rename_i hnode
        split at hseen
        · cases hseen
        · rename_i hentered
          have hbelow : Comes top f left (pos.enter name reached) seen := ih hnode hseen
          exact .enter hopen hentry hfollow (by simpa using hentered) hbelow
      · cases hseen
    · rename_i hfault
      cases List.mem_singleton.mp hseen
      exact .unreadable hopen hentry hfault
    · cases hseen

/-- What an entry shows is decided by where its name leads, be it a link or not. Of a directory
    behind a link the search goes on with one hop less, which is enough for the links it has
    left. -/
theorem sightEntry_of_found (hproper : top.Proper) (hhops : links ≤ hops)
    (hentry : top.at? (pos.place ++ [name]) = some child)
    (hfollow : follow top links pos.place [name] = .found reached left)
    (hat : top.at? reached = some node) :
    ∃ enough, left ≤ enough ∧ sightEntry f (sightLink top f hops links) pos name child =
      if node.isFile then sightFile f pos name
      else if f.excludes name then []
      else sightings top f enough left (pos.enter name reached) node := by
  have hthere := follow_of_at? hproper hentry
  cases child with
  | file bytes =>
    cases hfollow.symm.trans (hthere (by simp) links)
    cases hat.symm.trans hentry
    exact ⟨hops, hhops, rfl⟩
  | dir entries =>
    cases hfollow.symm.trans (hthere (by simp) links)
    cases hat.symm.trans hentry
    exact ⟨hops, hhops, by simp [sightEntry, sightings_eq, Node.isFile]⟩
  | link target =>
    have hless := left_lt_of_link hproper hentry hfollow
    obtain ⟨hops, rfl⟩ : ∃ fewer, hops = fewer + 1 := ⟨hops - 1, by omega⟩
    refine ⟨hops, by omega, ?_⟩
    simp only [sightEntry, sightLink, hfollow, hat]
    cases node <;> rfl

theorem sightEntry_of_refused (hproper : top.Proper) (hhops : links ≤ hops)
    (hentry : top.at? (pos.place ++ [name]) = some child)
    (hfollow : follow top links pos.place [name] = .fault .nameTooLong) :
    sightEntry f (sightLink top f hops links) pos name child =
      [.unreadable (pos.names ++ [name])] := by
  have hthere := follow_of_at? hproper hentry
  cases child with
  | file bytes => cases hfollow.symm.trans (hthere (by simp) links)
  | dir entries => cases hfollow.symm.trans (hthere (by simp) links)
  | link target =>
    cases hops with
    | succ hops => simp only [sightEntry, sightLink, hfollow]
    | zero =>
      obtain rfl : links = 0 := by omega
      rw [follow, advance_of_link hproper hentry] at hfollow
      cases hfollow

theorem mem_sightings_of_entry (hat : top.at? pos.place = some node)
    (hopen : f.stopsAt pos.depth = false) (hentry : top.at? (pos.place ++ [name]) = some child)
    (hs : s ∈ sightEntry f (sightLink top f hops links) pos name child) :
    s ∈ sightings top f hops links pos node := by
  obtain ⟨entries, found, hparent, hlookup, hfound⟩ := Node.exists_parent hentry
  cases hat.symm.trans hparent
  cases hfound
  rw [sightings_eq, mem_sightDir_iff]
  exact ⟨hopen, (name, child), mem_of_lookup hlookup, hs⟩

/-- A search with a hop for each link that may be followed sees whatever it comes to. -/
theorem mem_sightings_of_comes (hproper : top.Proper) (hcomes : Comes top f links pos s)
    (hhops : links ≤ hops) (hat : top.at? pos.place = some node) :
    s ∈ sightings top f hops links pos node := by
  induction hcomes generalizing hops node with
  | file hopen hentry hfollow hfile hselects =>
    obtain ⟨_, -, hshows⟩ := sightEntry_of_found hproper hhops hentry hfollow hfile
    refine mem_sightings_of_entry hat hopen hentry ?_
    rw [hshows]
    exact mem_sightFile_iff.mpr ⟨hselects, rfl⟩
  | unreadable hopen hentry hfollow =>
    refine mem_sightings_of_entry hat hopen hentry ?_
    rw [sightEntry_of_refused hproper hhops hentry hfollow]
    exact List.mem_singleton_self _
  | @enter links left pos name child reached s hopen hentry hfollow hentered hbelow ih =>
    obtain ⟨entries, hdir⟩ := hbelow.exists_dir
    obtain ⟨enough, henough, hshows⟩ := sightEntry_of_found hproper hhops hentry hfollow hdir
    refine mem_sightings_of_entry hat hopen hentry ?_
    rw [hshows, hentered]
    exact ih henough hdir

variable {root : Path} {place : List String} {paths : List Path} {seen : List Sighting}

theorem at?_of_find (hfind : d.find root = .ok (place, node)) : d.top.at? place = some node := by
  unfold find at hfind
  split at hfind
  · split at hfind
    · rename_i hat
      cases hfind
      exact hat
    · cases hfind
  · cases hfind
  · cases hfind

/-- The names on the way to a sighting. -/
def Sighting.names : Sighting → List String
  | .file names => names
  | .unreadable names => names

theorem filesSeen_eq_ok_iff : filesSeen seen = .ok paths ↔
    (∀ names, .unreadable names ∉ seen) ∧ paths = seen.map fun s => Path.absolute s.names := by
  induction seen generalizing paths with
  | nil => simp [filesSeen, eq_comm]
  | cons first rest ih =>
    cases first with
    | unreadable names =>
      exact iff_of_false (by simp [filesSeen]) fun hall => hall.1 names (.head _)
    | file names =>
      rw [filesSeen]
      cases hrest : filesSeen rest with
      | error fault =>
        refine iff_of_false (by simp [Except.map]) fun ⟨hnone, _⟩ => ?_
        have hok := ih.mpr ⟨fun names hmem => hnone names (.tail _ hmem), rfl⟩
        cases hrest.symm.trans hok
      | ok others =>
        obtain ⟨hnone, rfl⟩ := ih.mp hrest
        simp [Except.map, hnone, Sighting.names, eq_comm]

/-- A directory that can be read: below it there may be links that lead nowhere, but nothing that
    the system refuses to look at for a name that is too long. A whole path may be of any length
    here, also one that a loop of links with long names makes longer than a system takes. -/
def Readable (d : Disk) (root : Path) : Prop :=
  ∃ place entries, d.find root = .ok (place, .dir entries) ∧
    ∀ names, (∀ name ∈ names, EntryName name) →
      d.find (Path.absolute (place ++ names)) ≠ .error .nameTooLong

/-- Where no link asks for a name that is too long, all directories can be read. -/
theorem readable_of_shortTargets (hproper : d.top.Proper) (hshort : d.top.ShortTargets)
    (hfind : d.find root = .ok (place, .dir entries)) : d.Readable root := by
  refine ⟨place, entries, hfind, ?_⟩
  intro names hnamed hrefused
  have hall : ∀ name ∈ place ++ names, EntryName name :=
    List.forall_mem_append.mpr ⟨hproper.entryName (at?_of_find hfind), hnamed⟩
  have hlocate := @follow_ne_nameTooLong d.top [] (place ++ names) maxLinks hshort
    fun name hmem => (hall name hmem).fits
  rw [find, locate_absolute hall] at hrefused
  split at hrefused
  · split at hrefused <;> cases hrefused
  · cases hrefused
  · rename_i hfault
    cases hrefused
    exact hlocate hfault

end Disk

end ImportCycles
