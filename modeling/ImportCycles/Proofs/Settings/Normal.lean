import ImportCycles.Proofs.Lookup
import ImportCycles.Proofs.Settings.Entries
import ImportCycles.Proofs.Text.Lowercase

namespace ImportCycles

theorem sortDistinct_sortDistinct (names : List String) :
    sortDistinct (sortDistinct names) = sortDistinct names :=
  sortDistinct_eq_iff.mpr fun _ => mem_sortDistinct

namespace Settings

variable {α : Type} {entries again : List (String × Value)} {name extension : String}
  {value : Value} {extensions dirs : List String} {settings : Settings} {problem : Problem}

theorem head?_normalizeExtension (extension : String) :
    (normalizeExtension extension).toList.head? = some '.' := by
  have hdot : Text.IsLower '.' := by decide +kernel
  have hdotted : ∃ rest, (if extension.toList.head? = some '.' then extension
      else "." ++ extension).toList = '.' :: rest := by
    split
    · rename_i hhead
      exact ⟨_, List.eq_cons_of_mem_head? hhead⟩
    · exact ⟨extension.toList, by simp⟩
  obtain ⟨rest, hrest⟩ := hdotted
  rw [normalizeExtension, Text.lower, hrest, Text.lowerAfter_cons hdot, String.toList_ofList,
    List.head?_cons]

theorem lower_normalizeExtension (extension : String) :
    Text.lower (normalizeExtension extension) = normalizeExtension extension :=
  Text.lower_lower _

theorem normalizeExtension_eq_self (hdot : extension.toList.head? = some '.')
    (hlower : Text.lower extension = extension) : normalizeExtension extension = extension := by
  rw [normalizeExtension, if_pos hdot, hlower]

/-- Settings within their bounds, with extensions in their usual form. -/
structure Normal (settings : Settings) : Prop where
  maxDepth : ∀ n ∈ settings.filter.maxDepth, 0 ≤ n
  maxWorkers : ∀ n ∈ settings.maxWorkers, 1 ≤ n
  extensions : ∀ extension ∈ settings.filter.extensions,
    extension.toList.head? = some '.' ∧ Text.lower extension = extension

theorem Follows.map {Stands : Value → α → Prop} {default x : α} {f : α → α}
    (hfollows : Follows entries name Stands default x) (hdefault : f default = default) :
    Follows entries name (fun value y => ∃ x, Stands value x ∧ y = f x) default (f x) := by
  rw [Follows] at hfollows ⊢
  cases hgiven : valueOf? entries name with
  | none =>
    rw [hgiven] at hfollows
    exact (congrArg f hfollows).trans hdefault
  | some value =>
    rw [hgiven] at hfollows
    exact ⟨x, hfollows, rfl⟩

/-- The default extensions and directories are sets, in their usual form. -/
theorem normalizeExtensions_default :
    normalizeExtensions ({} : SearchFilter).extensions = ({} : SearchFilter).extensions := by
  decide +kernel

theorem sortDistinct_default :
    sortDistinct ({} : SearchFilter).excludedDirs = ({} : SearchFilter).excludedDirs := by
  decide +kernel

theorem takes_of_ofEntries (hok : ofEntries entries = .ok settings) : Takes entries settings := by
  obtain ⟨extensions, dirs, hroots, hextensions, hdirs, hdepth, hworkers, hflag, hset, hdirset⟩ :=
    (ofEntries_eq_ok_iff (known_of_ofEntries hok)).mp hok
  refine ⟨(hroots ▸ read_namesOf entries "roots" _).follows, ?_, ?_,
    (hdepth ▸ read_boundOf entries "max_depth" _).follows,
    (hworkers ▸ read_boundOf entries "max_workers" _).follows,
    (hflag ▸ read_flagOf entries "allow_cycles" _).follows⟩
  · rw [hset]
    exact (hextensions ▸ read_namesOf entries "include_ext" _).follows.map
      normalizeExtensions_default
  · rw [hdirset]
    exact (hdirs ▸ read_namesOf entries "exclude_dirs" _).follows.map sortDistinct_default

theorem normal_of_ofEntries (hok : ofEntries entries = .ok settings) : Normal settings := by
  obtain ⟨extensions, dirs, -, -, -, hdepth, hworkers, -, hset, -⟩ :=
    (ofEntries_eq_ok_iff (known_of_ofEntries hok)).mp hok
  refine ⟨le_of_boundOf hdepth, le_of_boundOf hworkers, fun extension hextension => ?_⟩
  rw [hset, normalizeExtensions, mem_sortDistinct] at hextension
  obtain ⟨written, -, rfl⟩ := List.mem_map.mp hextension
  exact ⟨head?_normalizeExtension written, lower_normalizeExtension written⟩

/-- Settings as entries, with their sets written as lists. -/
def entriesOf (settings : Settings) (extensions dirs : List String) : List (String × Value) :=
  [("roots", .list (settings.roots.map .text)), ("include_ext", .list (extensions.map .text)),
    ("exclude_dirs", .list (dirs.map .text)), ("max_depth", .ofBound settings.filter.maxDepth),
    ("max_workers", .ofBound settings.maxWorkers),
    ("allow_cycles", .boolean settings.allowCycles)]

theorem map_fst_entriesOf : (entriesOf settings extensions dirs).map (·.1) = kinds.map (·.1) :=
  rfl

/-- Of entries with distinct names, each counts. -/
theorem valueOf?_of_mem (hdistinct : (entries.map (·.1)).Nodup) (hmem : (name, value) ∈ entries) :
    valueOf? entries name = some value := by
  refine lookup_of_mem ?_ (List.mem_reverse.mpr hmem)
  rw [List.map_reverse, List.nodup_reverse]
  exact hdistinct

/-- Extensions in their usual form are left as they are. -/
theorem normalizeExtensions_eq_sortDistinct (hnormal : ∀ extension ∈ extensions,
    extension.toList.head? = some '.' ∧ Text.lower extension = extension) :
    normalizeExtensions extensions = sortDistinct extensions := by
  have hself : extensions.map normalizeExtension = extensions := by
    refine (List.map_congr_left fun extension hextension => ?_).trans (List.map_id extensions)
    obtain ⟨hdot, hlower⟩ := hnormal extension hextension
    exact normalizeExtension_eq_self hdot hlower
  rw [normalizeExtensions, hself]

section Again

variable (hagain : again.Perm (entriesOf settings extensions dirs))

include hagain

theorem map_fst_perm : (again.map (·.1)).Perm (kinds.map (·.1)) := by
  rw [← @map_fst_entriesOf extensions dirs settings]
  exact hagain.map _

theorem known_of_perm : unknownNames again = [] := by
  rw [unknownNames, List.filter_eq_nil_iff]
  intro name hname
  simpa using knownNames_perm.mem_iff.mpr ((map_fst_perm hagain).mem_iff.mp hname)

theorem valueOf?_of_perm (hmem : (name, value) ∈ entriesOf settings extensions dirs) :
    valueOf? again name = some value :=
  valueOf?_of_mem ((map_fst_perm hagain).nodup_iff.mpr (by decide)) (hagain.mem_iff.mpr hmem)

/-- Settings that are made again from their own values are the same, whatever the order of these
    and of the members of sets. -/
theorem ofEntries_again (hok : ofEntries entries = .ok settings)
    (hextensions : ∀ e, e ∈ extensions ↔ e ∈ settings.filter.extensions)
    (hdirs : ∀ e, e ∈ dirs ↔ e ∈ settings.filter.excludedDirs) :
    ofEntries again = .ok settings := by
  have hnormal := normal_of_ofEntries hok
  -- `Normal` does not say that the sets are sorted; that comes from how they were made.
  obtain ⟨listed, listedDirs, -, -, -, -, -, -, hset, hdirset⟩ :=
    (ofEntries_eq_ok_iff (known_of_ofEntries hok)).mp hok
  refine (ofEntries_eq_ok_iff (known_of_perm hagain)).mpr ⟨extensions, dirs,
    namesOf_of_lists (valueOf?_of_perm hagain (by simp [entriesOf])) (.inr rfl),
    namesOf_of_lists (valueOf?_of_perm hagain (by simp [entriesOf])) (.inr rfl),
    namesOf_of_lists (valueOf?_of_perm hagain (by simp [entriesOf])) (.inr rfl),
    boundOf_of_ofBound (valueOf?_of_perm hagain (by simp [entriesOf])) hnormal.maxDepth,
    boundOf_of_ofBound (valueOf?_of_perm hagain (by simp [entriesOf])) hnormal.maxWorkers,
    flagOf_of_boolean (valueOf?_of_perm hagain (by simp [entriesOf])), ?_, ?_⟩
  · have hlisted : normalizeExtensions extensions = sortDistinct extensions :=
      normalizeExtensions_eq_sortDistinct fun e he => hnormal.extensions e ((hextensions e).mp he)
    rw [hlisted, sortDistinct_eq_iff.mpr hextensions, hset, normalizeExtensions,
      sortDistinct_sortDistinct]
  · rw [sortDistinct_eq_iff.mpr hdirs, hdirset, sortDistinct_sortDistinct]

end Again

/-- Entries of a mapping, whose names are all texts. -/
def named (entries : List (String × Value)) : List (Option String × Value) :=
  entries.map fun (name, value) => (some name, value)

theorem mapM_named {f : Option String × Value → Option (String × Value)}
    (hf : ∀ name value, f (some name, value) = some (name, value)) :
    (named entries).mapM f = some entries := by
  rw [named]
  induction entries with
  | nil => rfl
  | cons entry rest ih =>
    rw [List.map_cons, List.mapM_cons, hf, ih]
    rfl

theorem ofMapping_named (entries : List (String × Value)) :
    ofMapping (named entries) = (ofEntries entries).mapError .problem := by
  rw [ofMapping, mapM_named fun _ _ => rfl]
  dsimp only
  cases ofEntries entries <;> rfl

/-- Settings are made, or it is reported what is wrong with the entries: a name that no setting has
    or a value that is not of its kind, and nothing else. Settings that are made are within their
    bounds and have their extensions in the usual form; what is not given has its default. They can
    be written as entries, in any order and with any list of the members of each set, and are made
    again from these. -/
theorem ofMapping_exact (entries : List (String × Value)) :
    (∀ failure, ofMapping (named entries) = .error failure →
      ∃ problem, failure = .problem problem ∧ Wrong entries problem) ∧
    ((∃ problem, ofMapping (named entries) = .error (.problem problem)) ↔
      ∃ problem, Wrong entries problem) ∧
    ∀ settings, ofMapping (named entries) = .ok settings →
      Normal settings ∧ Takes entries settings ∧
        ∀ extensions dirs again, (∀ e, e ∈ extensions ↔ e ∈ settings.filter.extensions) →
          (∀ e, e ∈ dirs ↔ e ∈ settings.filter.excludedDirs) →
          again.Perm (entriesOf settings extensions dirs) →
          ofMapping (named again) = .ok settings := by
  rw [ofMapping_named]
  cases hmade : ofEntries entries with
  | ok settings =>
    have hright := not_wrong_of_ofEntries hmade
    refine ⟨by simp [Except.mapError], by simp [Except.mapError, hright], ?_⟩
    rintro _ ⟨⟩
    refine ⟨normal_of_ofEntries hmade, takes_of_ofEntries hmade, ?_⟩
    intro extensions dirs again hextensions hdirs hagain
    rw [ofMapping_named, ofEntries_again hagain hmade hextensions hdirs]
    rfl
  | error problem =>
    have hwrong := wrong_of_ofEntries hmade
    refine ⟨?_, iff_of_true ⟨problem, rfl⟩ ⟨problem, hwrong⟩, by simp [Except.mapError]⟩
    rintro _ ⟨⟩
    exact ⟨problem, rfl, hwrong⟩

/-- Extensions without a dot, one of them with a letter whose lower case is two. -/
def dotless : List (String × Value) :=
  [("include_ext", .list [.text "java", .text "İX"]),
    ("exclude_dirs", .list [.text "out", .text "bin"]), ("max_workers", .integer 2)]

def dotted : Settings where
  filter := { extensions := [".i̇x", ".java"], excludedDirs := ["bin", "out"] }
  maxWorkers := some 2

/-- The settings of these, made again from their values in another order, and a flag where a bound
    is due. -/
theorem ofMapping_exact_dotless :
    Normal dotted ∧ Takes dotless dotted ∧
      ofMapping (named (entriesOf dotted [".java", ".i̇x"] ["out", "bin"]).reverse) = .ok dotted ∧
      ∃ problem, Failure.problem (.notInteger "max_depth" 0) = .problem problem ∧
        Wrong [("max_depth", .boolean true)] problem := by
  have hmade : ofMapping (named dotless) = .ok dotted := by decide +kernel
  have hflag : ofMapping (named [("max_depth", .boolean true)]) =
      .error (.problem (.notInteger "max_depth" 0)) := by decide +kernel
  obtain ⟨hnormal, htakes, hagain⟩ := (ofMapping_exact dotless).2.2 dotted hmade
  refine ⟨hnormal, htakes, ?_, (ofMapping_exact _).1 _ hflag⟩
  refine hagain [".java", ".i̇x"] ["out", "bin"] _ ?_ ?_ (List.reverse_perm _)
  · intro e
    simp [dotted, or_comm]
  · intro e
    simp [dotted, or_comm]

end Settings

end ImportCycles
