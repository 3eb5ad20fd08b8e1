import Mathlib.Data.List.TakeWhile
import ImportCycles.Proofs.Disk.Fault
import ImportCycles.Proofs.Disk.Order

namespace ImportCycles

/-- Whether a directory name ends as a pattern says. A pattern is written with stars in front, and
    these are not part of the ending. -/
def EndsAs (pattern name : String) : Prop :=
  ∃ stars ending, pattern.toList = List.replicate (stars + 1) '*' ++ ending ∧
    ending.head? ≠ some '*' ∧ ending <:+ name.toList

/-- A directory of this name is left out: the name is listed, or it ends as a listed pattern
    says. -/
def SearchFilter.Excluded (f : SearchFilter) (name : String) : Prop :=
  name ∈ f.excludedDirs ∨ ∃ pattern ∈ f.excludedDirs, EndsAs pattern name

theorem SearchFilter.matchesPattern_iff {pattern name : String} :
    matchesPattern pattern name = true ↔ EndsAs pattern name := by
  simp only [matchesPattern, EndsAs, Bool.and_eq_true, beq_iff_eq, List.isSuffixOf_iff_suffix]
  generalize pattern.toList = cs
  constructor
  · rintro ⟨hhead, hends⟩
    obtain ⟨rest, rfl⟩ := List.head?_eq_some_iff.mp hhead
    have hstars : ('*' :: rest).takeWhile (· == '*') =
        List.replicate ((rest.takeWhile (· == '*')).length + 1) '*' := by
      refine List.eq_replicate_iff.mpr ⟨by simp, fun c hc => ?_⟩
      simpa using List.mem_takeWhile_imp hc
    refine ⟨(rest.takeWhile (· == '*')).length, ('*' :: rest).dropWhile (· == '*'), ?_, ?_, hends⟩
    · rw [← hstars, List.takeWhile_append_dropWhile]
    · intro hstar
      have hnot := List.head?_dropWhile_not (· == '*') ('*' :: rest)
      rw [hstar] at hnot
      cases hnot
  · rintro ⟨stars, ending, rfl, hhead, hends⟩
    have hdrop : (List.replicate (stars + 1) '*' ++ ending).dropWhile (· == '*') = ending := by
      rw [List.dropWhile_append_of_pos (by simp)]
      cases ending with
      | nil => rfl
      | cons c rest => exact List.dropWhile_cons_of_neg (by simpa using hhead)
    exact ⟨by simp [List.replicate_succ], hdrop.symm ▸ hends⟩

theorem SearchFilter.excludes_eq_false_iff {f : SearchFilter} {name : String} :
    f.excludes name = false ↔ ¬ f.Excluded name := by
  rw [← Bool.not_eq_true, not_iff_not]
  simp [excludes, Excluded, matchesPattern_iff]

namespace Disk

/-- A search below a place comes to an entry: the directories on the way are not excluded and not
    too many, and the last of them has an entry of this name. -/
structure Meets (d : Disk) (f : SearchFilter) (place dirs : List String) (name : String) :
    Prop where
  listed : ∃ there entries, d.find (Path.absolute (place ++ dirs)) = .ok (there, .dir entries) ∧
    name ∈ entries.map (·.1)
  named : ∀ dir ∈ dirs, EntryName dir
  entered : ∀ dir ∈ dirs, ¬ f.Excluded dir
  inReach : ∀ bound, f.maxDepth = some bound → (dirs.length : Int) ≤ bound

/-- The names on the way to a file that a search below a place is to find. -/
def Selected (d : Disk) (f : SearchFilter) (place names : List String) : Prop :=
  ∃ dirs name, names = place ++ dirs ++ [name] ∧ d.Meets f place dirs name ∧
    d.isFile (Path.absolute names) = .ok true ∧ Text.lower (Path.suffixOf name) ∈ f.extensions

/-- The names on the way to an entry that a search below a place comes to, but of which the system
    refuses to tell what it is, for a link to a name that is too long. The limit of a system on a
    whole path is left out here; with it an entry could be refused at the end of a way that runs
    again and again through a link with a long name to a directory around it. -/
def Refused (d : Disk) (f : SearchFilter) (place names : List String) : Prop :=
  ∃ dirs name, names = place ++ dirs ++ [name] ∧ d.Meets f place dirs name ∧
    d.isFile (Path.absolute names) = .error .nameTooLong

variable {d : Disk} {f : SearchFilter} {place dirs more reached : List String} {name : String}
  {links left : Nat} {pos : Position} {s : Sighting} {child : Node}

/-- What a sighting says is what the search is to find, or to give up at. -/
def Sighting.Warranted (d : Disk) (f : SearchFilter) (place : List String) : Sighting → Prop
  | .file names => d.Selected f place names
  | .unreadable names => d.Refused f place names

theorem isFile_eq_true_iff {path : Path} :
    d.isFile path = .ok true ↔ ∃ reached bytes, d.find path = .ok (reached, .file bytes) := by
  rw [isFile]
  cases d.find path with
  | ok found =>
    obtain ⟨reached, node⟩ := found
    cases node <;> simp [Node.isFile]
  | error reason => cases reason <;> simp

/-- A position that a search below a place reaches through directories that it may enter, with so
    many links left to follow. -/
structure Position.Reached (d : Disk) (f : SearchFilter) (place dirs : List String) (links : Nat)
    (pos : Position) : Prop where
  follows : follow d.top maxLinks [] (place ++ dirs) = .found pos.place links
  names_eq : pos.names = place ++ dirs
  depth_eq : pos.depth = dirs.length
  above : ∀ name ∈ place, EntryName name
  named : ∀ dir ∈ dirs, EntryName dir
  entered : ∀ dir ∈ dirs, ¬ f.Excluded dir

theorem Position.Reached.locate_eq (hreached : pos.Reached d f place dirs links)
    (hmore : ∀ name ∈ more, EntryName name) :
    d.locate (Path.absolute (place ++ dirs ++ more)) = follow d.top links pos.place more := by
  have hall : ∀ name ∈ place ++ dirs ++ more, EntryName name := by
    simp only [List.mem_append, or_imp, forall_and]
    exact ⟨⟨hreached.above, hreached.named⟩, hmore⟩
  rw [locate_absolute hall]
  exact follow_append hreached.follows

theorem Position.Reached.enter (hreached : pos.Reached d f place dirs links)
    (hname : EntryName name) (hentered : ¬ f.Excluded name)
    (hfollow : follow d.top links pos.place [name] = .found reached left) :
    (pos.enter name reached).Reached d f place (dirs ++ [name]) left where
  follows := by
    rw [← List.append_assoc]
    exact (follow_append hreached.follows).trans hfollow
  names_eq := by simp [Position.enter, hreached.names_eq]
  depth_eq := by simp [Position.enter, hreached.depth_eq]
  above := hreached.above
  named := by simpa [or_imp, forall_and] using ⟨hreached.named, hname⟩
  entered := by simpa [or_imp, forall_and] using ⟨hreached.entered, hentered⟩

theorem stopsAt_eq_false_iff {depth : Nat} : f.stopsAt depth = false ↔
    ∀ bound, f.maxDepth = some bound → (depth : Int) ≤ bound := by
  unfold SearchFilter.stopsAt
  cases f.maxDepth <;> simp

theorem Position.Reached.find_eq_ok_iff (hreached : pos.Reached d f place dirs links)
    (hmore : ∀ name ∈ more, EntryName name) :
    d.find (Path.absolute (place ++ dirs ++ more)) = .ok (reached, child) ↔
      (∃ left, follow d.top links pos.place more = .found reached left) ∧
        d.top.at? reached = some child := by
  rw [find, hreached.locate_eq hmore]
  constructor
  · intro hfind
    split at hfind
    · rename_i there left hfollow
      split at hfind
      · rename_i hat
        cases hfind
        exact ⟨⟨left, hfollow⟩, hat⟩
      · cases hfind
    · cases hfind
    · cases hfind
  · rintro ⟨⟨left, hfollow⟩, hat⟩
    simp only [hfollow, hat]

theorem Position.Reached.find_eq_nameTooLong_iff (hreached : pos.Reached d f place dirs links)
    (hmore : ∀ name ∈ more, EntryName name) :
    d.find (Path.absolute (place ++ dirs ++ more)) = .error .nameTooLong ↔
      follow d.top links pos.place more = .fault .nameTooLong := by
  rw [find, hreached.locate_eq hmore]
  cases follow d.top links pos.place more with
  | found there left => cases hat : d.top.at? there <;> simp [hat]
  | absent there name => simp
  | fault reason => simp

theorem Position.Reached.find_here_iff (hreached : pos.Reached d f place dirs links)
    {there : List String} : d.find (Path.absolute (place ++ dirs)) = .ok (there, child) ↔
      pos.place = there ∧ d.top.at? there = some child := by
  have hstays : follow d.top links pos.place [] = .found pos.place links := by rw [follow, advance]
  rw [← List.append_nil (place ++ dirs), hreached.find_eq_ok_iff (by simp), hstays]
  simp

/-- At a position that is reached the search comes to the entries there, unless it lies too deep. -/
theorem Position.Reached.meets_iff (hreached : pos.Reached d f place dirs links)
    (hproper : d.top.Proper) : d.Meets f place dirs name ↔
      f.stopsAt pos.depth = false ∧ ∃ child, d.top.at? (pos.place ++ [name]) = some child := by
  rw [stopsAt_eq_false_iff, hreached.depth_eq]
  constructor
  · rintro ⟨⟨there, entries, hfind, hlisted⟩, -, -, hreach⟩
    obtain ⟨rfl, hat⟩ := hreached.find_here_iff.mp hfind
    obtain ⟨⟨_, child⟩, hmem, rfl⟩ := List.mem_map.mp hlisted
    exact ⟨hreach, child, hproper.at?_entry hat hmem⟩
  · rintro ⟨hreach, child, hentry⟩
    obtain ⟨entries, _, hparent, hlookup, -⟩ := Node.exists_parent hentry
    have hfind := hreached.find_here_iff.mpr ⟨rfl, hparent⟩
    exact ⟨⟨pos.place, entries, hfind, List.mem_map_of_mem (f := (·.1)) (mem_of_lookup hlookup)⟩,
      hreached.named, hreached.entered, hreach⟩

/-- What a search comes to it is to find, or to give up at. -/
theorem Comes.warranted (hcomes : Comes d.top f links pos s) (hproper : d.top.Proper)
    (hreached : pos.Reached d f place dirs links) : s.Warranted d f place := by
  induction hcomes generalizing dirs with
  | @file links left pos name child reached bytes hopen hentry hfollow hat hselects =>
    have hname := hproper.entryName hentry name (by simp)
    have hfind := (hreached.find_eq_ok_iff (by simpa using hname)).mpr ⟨⟨left, hfollow⟩, hat⟩
    have hmeets := (hreached.meets_iff hproper).mpr ⟨hopen, child, hentry⟩
    refine ⟨dirs, name, by rw [hreached.names_eq], hmeets, ?_, ?_⟩
    · rw [hreached.names_eq]
      exact isFile_eq_true_iff.mpr ⟨reached, bytes, hfind⟩
    · simpa [SearchFilter.selects] using hselects
  | @unreadable links pos name child hopen hentry hfollow =>
    have hname := hproper.entryName hentry name (by simp)
    have hfind := (hreached.find_eq_nameTooLong_iff (by simpa using hname)).mpr hfollow
    have hmeets := (hreached.meets_iff hproper).mpr ⟨hopen, child, hentry⟩
    refine ⟨dirs, name, by rw [hreached.names_eq], hmeets, ?_⟩
    rw [hreached.names_eq]
    exact isFile_eq_error_iff.mpr ⟨hfind, rfl⟩
  | @enter links left pos name child reached s hopen hentry hfollow hentered hbelow ih =>
    have hname := hproper.entryName hentry name (by simp)
    exact ih (hreached.enter hname (SearchFilter.excludes_eq_false_iff.mp hentered) hfollow)

/-- A search gets through directories that it may enter: whatever it comes to from the last of them
    it comes to from the first. -/
theorem comes_through (hmeets : d.Meets f place (dirs ++ more) name)
    (hreached : pos.Reached d f place dirs links)
    (hlast : ∀ pos left, pos.Reached d f place (dirs ++ more) left → Comes d.top f left pos s) :
    Comes d.top f links pos s := by
  induction more generalizing dirs links pos with
  | nil => exact hlast pos links (by simpa using hreached)
  | cons next rest ih =>
    have hnext : EntryName next := hmeets.named next (by simp)
    have hrest : ∀ dir ∈ next :: rest, EntryName dir :=
      fun dir hdir => hmeets.named dir (List.mem_append_right _ hdir)
    have hfree : ¬ f.Excluded next := hmeets.entered next (by simp)
    obtain ⟨there, entries, hfind, -⟩ := hmeets.listed
    rw [← List.append_assoc] at hfind
    obtain ⟨⟨left, hfollow⟩, -⟩ := (hreached.find_eq_ok_iff hrest).mp hfind
    rw [← List.singleton_append] at hfollow
    obtain ⟨halfway, between, hfirst, -⟩ := exists_of_follow_append hfollow
    obtain ⟨child, hentry⟩ := exists_entry_of_follow hnext hfirst
    have hopen : f.stopsAt pos.depth = false := by
      refine stopsAt_eq_false_iff.mpr fun bound hbound => ?_
      have hreach := hmeets.inReach bound hbound
      rw [hreached.depth_eq]
      simp only [List.length_append] at hreach
      omega
    refine .enter hopen hentry hfirst (SearchFilter.excludes_eq_false_iff.mpr hfree) ?_
    rw [List.append_cons] at hmeets
    refine ih hmeets (hreached.enter hnext hfree hfirst) ?_
    simpa using hlast

/-- What a search is to find, or to give up at, it comes to. -/
theorem comes_of_warranted (hproper : d.top.Proper) (hreached : pos.Reached d f place [] links)
    (hwarranted : s.Warranted d f place) : Comes d.top f links pos s := by
  cases s with
  | file names =>
    obtain ⟨dirs, name, rfl, hmeets, hfile, hselects⟩ := hwarranted
    refine comes_through hmeets hreached fun pos left hthere => ?_
    obtain ⟨hopen, child, hentry⟩ := (hthere.meets_iff hproper).mp hmeets
    have hname := hproper.entryName hentry name (by simp)
    obtain ⟨reached, bytes, hfind⟩ := isFile_eq_true_iff.mp hfile
    obtain ⟨⟨rest, hfollow⟩, hat⟩ := (hthere.find_eq_ok_iff (by simpa using hname)).mp hfind
    have hwanted : f.selects name = true := by simpa [SearchFilter.selects] using hselects
    have hseen := Comes.file hopen hentry hfollow hat hwanted
    rwa [hthere.names_eq] at hseen
  | unreadable names =>
    obtain ⟨dirs, name, rfl, hmeets, hrefused⟩ := hwarranted
    refine comes_through hmeets hreached fun pos left hthere => ?_
    obtain ⟨hopen, child, hentry⟩ := (hthere.meets_iff hproper).mp hmeets
    have hname := hproper.entryName hentry name (by simp)
    obtain ⟨hfind, -⟩ := isFile_eq_error_iff.mp hrefused
    have hfollow := (hthere.find_eq_nameTooLong_iff (by simpa using hname)).mp hfind
    have hseen := Comes.unreadable hopen hentry hfollow
    rwa [hthere.names_eq] at hseen

variable {root : Path} {entries : List (String × Node)} {seen : List Sighting}

/-- The search below a root starts where the root's path leads. -/
theorem reached_start (hproper : d.top.Proper) (hat : d.top.at? place = some (.dir entries)) :
    Position.Reached d f place [] maxLinks { place, names := place } where
  follows := by
    rw [List.append_nil]
    exact @follow_of_at? d.top _ [] place hproper hat (by simp) maxLinks
  names_eq := (List.append_nil place).symm
  depth_eq := rfl
  above := hproper.entryName hat
  named := by simp
  entered := by simp

/-- The search below a directory sees just what it is to find, or to give up at. -/
theorem mem_sightings_iff (hproper : d.top.Proper) (hat : d.top.at? place = some (.dir entries)) :
    s ∈ sightings d.top f maxLinks maxLinks { place, names := place } (.dir entries) ↔
      s.Warranted d f place := by
  have hreached := reached_start (f := f) hproper hat
  constructor
  · intro hs
    exact (comes_of_mem_sightings hproper hat hs).warranted hproper hreached
  · intro hwarranted
    exact mem_sightings_of_comes hproper (comes_of_warranted hproper hreached hwarranted)
      (Nat.le_refl _) hat

theorem filesSeen_of_refused (hsorted : seen.Pairwise (·.names < ·.names)) {names : List String}
    (hrefused : .unreadable names ∈ seen) :
    ∃ first, .unreadable first ∈ seen ∧ (∀ others, .unreadable others ∈ seen → ¬ others < first) ∧
      filesSeen seen = .error (.nameTooLong (Path.absolute first)) := by
  induction seen with
  | nil => cases hrefused
  | cons next rest ih =>
    obtain ⟨hnext, hrest⟩ := List.pairwise_cons.mp hsorted
    cases next with
    | file others =>
      obtain ⟨first, hfirst, hleast, herror⟩ := ih hrest (by simpa using hrefused)
      refine ⟨first, .tail _ hfirst, by simpa using hleast, ?_⟩
      rw [filesSeen, herror]
      rfl
    | unreadable first =>
      refine ⟨first, .head _, fun others hothers hless => ?_, rfl⟩
      rcases List.mem_cons.mp hothers with heq | hlater
      · cases heq
        exact List.lt_irrefl _ hless
      · exact List.lt_asymm hless (hnext _ hlater)

theorem files_eq (f : SearchFilter) (hroot : d.find root = .ok (place, .dir entries)) :
    d.files f root = filesSeen
      (sightings d.top f maxLinks maxLinks { place, names := place } (.dir entries)) := by
  rw [files, hroot]

theorem increasing_sightings (hproper : d.top.Proper)
    (hat : d.top.at? place = some (.dir entries)) :
    (sightings d.top f maxLinks maxLinks { place, names := place } (.dir entries)).Pairwise
      (·.names < ·.names) :=
  (inOrder_sightings hproper (hproper.at? hat) _ _ _).increasing

/-- If nothing is refused, the search finds the selected files in the order of their names. -/
theorem files_of_told (hproper : d.top.Proper) (hroot : d.find root = .ok (place, .dir entries))
    (hnone : ∀ names, ¬ d.Refused f place names) :
    ∃ found : List (List String), d.files f root = .ok (found.map Path.absolute) ∧
      (∀ names, names ∈ found ↔ d.Selected f place names) ∧ found.Pairwise (· < ·) := by
  have hat := at?_of_find hroot
  have hsees : ∀ s : Sighting, _ ↔ s.Warranted d f place :=
    fun s => mem_sightings_iff (f := f) (s := s) hproper hat
  have hincreasing := increasing_sightings (f := f) hproper hat
  rw [files_eq f hroot]
  generalize sightings d.top f maxLinks maxLinks { place, names := place } (.dir entries) = seen
    at hsees hincreasing
  have htold : ∀ names, .unreadable names ∉ seen := fun names hs => hnone names ((hsees _).mp hs)
  refine ⟨seen.map Sighting.names, ?_, fun names => ?_, List.pairwise_map.mpr hincreasing⟩
  · exact filesSeen_eq_ok_iff.mpr ⟨htold, by rw [List.map_map]; rfl⟩
  · rw [List.mem_map, ← Sighting.Warranted, ← hsees]
    constructor
    · rintro ⟨s, hs, rfl⟩
      cases s with
      | file names => exact hs
      | unreadable names => exact absurd hs (htold names)
    · intro hs
      exact ⟨_, hs, rfl⟩

/-- If something is refused, the search gives up at the first of its kind. -/
theorem files_of_refused {names : List String} (hproper : d.top.Proper)
    (hroot : d.find root = .ok (place, .dir entries)) (hrefused : d.Refused f place names) :
    ∃ first, d.Refused f place first ∧ (∀ others, d.Refused f place others → ¬ others < first) ∧
      d.files f root = .error (.nameTooLong (Path.absolute first)) := by
  have hat := at?_of_find hroot
  have hsees : ∀ names, _ ↔ d.Refused f place names :=
    fun names => mem_sightings_iff (f := f) (s := .unreadable names) hproper hat
  obtain ⟨first, hfirst, hleast, herror⟩ :=
    filesSeen_of_refused (increasing_sightings hproper hat) ((hsees names).mpr hrefused)
  rw [files_eq f hroot]
  exact ⟨first, (hsees first).mp hfirst,
    fun others hothers => hleast others ((hsees others).mpr hothers), herror⟩

theorem Meets.entryName (hmeets : d.Meets f place dirs name) (hproper : d.top.Proper) :
    EntryName name := by
  obtain ⟨there, entries, hfind, hlisted⟩ := hmeets.listed
  obtain ⟨⟨_, child⟩, hmem, rfl⟩ := List.mem_map.mp hlisted
  exact hproper.entryName (hproper.at?_entry (at?_of_find hfind) hmem) _ (by simp)

/-- The search below a readable directory comes to its end. -/
theorem Readable.files_isOk (hreadable : d.Readable root) (hproper : d.top.Proper)
    (f : SearchFilter) : ∃ paths, d.files f root = .ok paths := by
  obtain ⟨place, entries, hroot, hlooks⟩ := hreadable
  have hnone : ∀ names, ¬ d.Refused f place names := by
    rintro _ ⟨dirs, name, rfl, hmeets, hrefused⟩
    obtain ⟨hfind, -⟩ := isFile_eq_error_iff.mp hrefused
    rw [List.append_assoc] at hfind
    refine hlooks (dirs ++ [name]) ?_ hfind
    simpa [or_imp, forall_and] using ⟨hmeets.named, hmeets.entryName hproper⟩
  obtain ⟨found, hfiles, -⟩ := files_of_told hproper hroot hnone
  exact ⟨_, hfiles⟩

theorem Selected.read {names : List String} (hselected : d.Selected f place names) :
    ∃ bytes, d.read (Path.absolute names) = .ok bytes := by
  obtain ⟨dirs, name, -, -, hfile, -⟩ := hselected
  obtain ⟨reached, bytes, hfind⟩ := isFile_eq_true_iff.mp hfile
  exact ⟨bytes, by rw [Disk.read, hfind]⟩

/-- Every file that a search finds can be read under the path that the search gives. -/
theorem read_of_mem_files {path : Path} {paths : List Path} (hproper : d.top.Proper)
    (hfiles : d.files f root = .ok paths) (hpath : path ∈ paths) :
    ∃ bytes, d.read path = .ok bytes := by
  obtain ⟨place, entries, hroot⟩ : ∃ place entries, d.find root = .ok (place, .dir entries) := by
    unfold files at hfiles
    split at hfiles
    · exact ⟨_, _, ‹_›⟩
    · cases hfiles
    · cases hfiles
    · cases hfiles
  have hnone : ∀ names, ¬ d.Refused f place names := by
    intro names hrefused
    obtain ⟨_, -, -, hfault⟩ := files_of_refused hproper hroot hrefused
    cases hfiles.symm.trans hfault
  obtain ⟨found, hfound, hselected, -⟩ := files_of_told hproper hroot hnone
  cases hfiles.symm.trans hfound
  obtain ⟨names, hnames, rfl⟩ := List.mem_map.mp hpath
  exact ((hselected names).mp hnames).read

/-- A search below a directory comes to its end if the system tells of every entry on the way what
    it is. It finds exactly the selected files then, each once, in the order of their paths, name by
    name. Otherwise it gives up at the first entry that the system refuses to tell about. -/
theorem files_exact (hproper : d.top.Proper) (hroot : d.find root = .ok (place, .dir entries))
    (f : SearchFilter) :
    ((∀ names, ¬ d.Refused f place names) →
      ∃ found : List (List String), d.files f root = .ok (found.map Path.absolute) ∧
        (∀ names, names ∈ found ↔ d.Selected f place names) ∧ found.Nodup ∧
        found.Pairwise (· < ·)) ∧
    ((∃ names, d.Refused f place names) →
      ∃ first, d.Refused f place first ∧
        (∀ others, d.Refused f place others → ¬ others < first) ∧
        d.files f root = .error (.nameTooLong (Path.absolute first))) := by
  constructor
  · intro hnone
    obtain ⟨found, hfound, hselected, hincreasing⟩ := files_of_told hproper hroot hnone
    refine ⟨found, hfound, hselected, ?_, hincreasing⟩
    refine List.Pairwise.imp ?_ hincreasing
    rintro names others hless rfl
    exact List.lt_irrefl names hless
  · rintro ⟨names, hrefused⟩
    exact files_of_refused hproper hroot hrefused

/-- A directory beside a file whose name it starts, directories that are left out by name, by ending
    and by depth, and a link to another directory. -/
def mixedTree : Disk where
  top := .dir [
    ("lib", .dir [("B.java", .file [])]),
    ("src", .dir [
      ("a.java", .file []),
      ("build", .dir [("C.java", .file [])]),
      ("a", .dir [("Z.JAVA", .file []), ("deep", .dir [("D.java", .file [])])]),
      ("more", .link "../lib"),
      ("regen", .dir [("E.java", .file [])])])]

def mixedFilter : SearchFilter where
  excludedDirs := ["build", "**gen"]
  maxDepth := some 1

theorem files_exact_mixedTree :
    mixedTree.top.Proper ∧
    (∃ entries, mixedTree.find (Path.ofString "src") = .ok (["src"], .dir entries)) ∧
    ∀ names, mixedTree.Selected mixedFilter ["src"] names ↔
      names ∈ [["src", "a", "Z.JAVA"], ["src", "a.java"], ["src", "more", "B.java"]] := by
  have hproper : mixedTree.top.Proper := by decide
  obtain ⟨entries, hroot⟩ :
      ∃ entries, mixedTree.find (Path.ofString "src") = .ok (["src"], .dir entries) := ⟨_, rfl⟩
  have hfiles : mixedTree.files mixedFilter (Path.ofString "src") =
      .ok ([["src", "a", "Z.JAVA"], ["src", "a.java"], ["src", "more", "B.java"]].map
        Path.absolute) := by
    decide +kernel
  obtain ⟨hsuccess, hfailure⟩ := files_exact hproper hroot mixedFilter
  have hnone : ∀ names, ¬ mixedTree.Refused mixedFilter ["src"] names := by
    intro names hrefused
    obtain ⟨_, -, -, hfault⟩ := hfailure ⟨names, hrefused⟩
    cases hfiles.symm.trans hfault
  obtain ⟨found, hfound, hselected, -, -⟩ := hsuccess hnone
  have hsame := Except.ok.inj (hfound.symm.trans hfiles)
  obtain rfl := List.map_injective_iff.mpr (fun _ _ => congrArg Path.parts) hsame
  exact ⟨hproper, ⟨entries, hroot⟩, fun names => (hselected names).symm⟩

/-- A link that asks for a name of three hundred bytes, beside a file. -/
def longTarget : Disk where
  top := .dir [
    ("src", .dir [
      ("a", .link (String.ofList (List.replicate 300 'x'))),
      ("b.java", .file [])])]

/-- A selected file is not found if the system refuses to tell about another entry. -/
theorem files_longTarget :
    longTarget.top.Proper ∧
    (∃ entries, longTarget.find (Path.ofString "src") = .ok (["src"], .dir entries)) ∧
    longTarget.Selected {} ["src"] ["src", "b.java"] ∧
    ∀ paths, longTarget.files {} (Path.ofString "src") ≠ .ok paths := by
  have hproper : longTarget.top.Proper := by decide
  obtain ⟨entries, hroot⟩ :
      ∃ entries, longTarget.find (Path.ofString "src") = .ok (["src"], .dir entries) := ⟨_, rfl⟩
  have hmeets : longTarget.Meets {} ["src"] [] "b.java" :=
    ⟨⟨["src"], _, rfl, by decide⟩, by simp, by simp, by simp⟩
  refine ⟨hproper, ⟨entries, hroot⟩, ?_, fun paths hpaths => ?_⟩
  · exact ⟨[], "b.java", rfl, hmeets, by decide +kernel, by decide +kernel⟩
  · have hslash : '/' ∉ (String.ofList (List.replicate 300 'x')).toList := by
      rw [String.toList_ofList, List.mem_replicate]
      decide
    have hfollow : follow longTarget.top maxLinks ["src"] ["a"] = .fault .nameTooLong :=
      follow_of_longTarget hproper rfl hslash (by decide +kernel) 39
    have hcomes : Comes longTarget.top {} maxLinks { place := ["src"], names := ["src"] }
        (.unreadable ["src", "a"]) := .unreadable rfl rfl hfollow
    rw [files, hroot] at hpaths
    obtain ⟨hnone, -⟩ := filesSeen_eq_ok_iff.mp hpaths
    exact hnone _ (mem_sightings_of_comes hproper hcomes (Nat.le_refl _) (at?_of_find hroot))

end Disk

end ImportCycles
