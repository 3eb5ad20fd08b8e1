import ImportCycles.Settings.Basic
import ImportCycles.Proofs.Sorted

namespace ImportCycles

theorem Except.bind_eq_ok_iff {ε α β : Type} {x : Except ε α} {f : α → Except ε β} {y : β} :
    (x >>= f) = .ok y ↔ ∃ a, x = .ok a ∧ f a = .ok y := by
  cases x <;> simp [bind, Except.bind]

theorem Except.bind_eq_error_iff {ε α β : Type} {x : Except ε α} {f : α → Except ε β} {e : ε} :
    (x >>= f) = .error e ↔ x = .error e ∨ ∃ a, x = .ok a ∧ f a = .error e := by
  cases x <;> simp [bind, Except.bind]

namespace Settings

variable {α : Type} {entries : List (String × Value)} {name : String} {value : Value}
  {names : List String} {settings : Settings}

/-- The names that a value lists: a text is one name, a list of texts is many. -/
def Value.Lists (value : Value) (names : List String) : Prop :=
  (∃ name, value = .text name ∧ names = [name]) ∨ value = .list (names.map .text)

/-- A bound as a value, where a missing one is written as null. -/
def Value.ofBound : Option Int → Value
  | none => .null
  | some n => .integer n

theorem Value.ofBound_injective : Function.Injective Value.ofBound := by
  rintro (- | m) (- | n) heq
  · rfl
  · cases heq
  · cases heq
  · rw [Value.integer.inj heq]

/-- What a setting may be: names, a bound that is missing or not below a minimum, or a flag. -/
inductive Kind where
  | names
  | bound (minimum : Int)
  | flag
  deriving DecidableEq

/-- The values that a kind admits. A flag is no bound, though it stands for a number elsewhere. -/
def Kind.Admits : Kind → Value → Prop
  | .names, value => ∃ names, value.Lists names
  | .bound minimum, value => ∃ bound, value = .ofBound bound ∧ ∀ n ∈ bound, minimum ≤ n
  | .flag, value => ∃ flag, value = .boolean flag

/-- The problem with a value that is not of its kind. -/
def Kind.problem (name : String) : Kind → Problem
  | .names => .notNames name
  | .bound minimum => .notInteger name minimum
  | .flag => .notBoolean name

/-- The settings that there are. -/
def kinds : List (String × Kind) :=
  [("roots", .names), ("include_ext", .names), ("exclude_dirs", .names), ("max_depth", .bound 0),
    ("max_workers", .bound 1), ("allow_cycles", .flag)]

/-- The names among some entries that no setting has. -/
def unknownNames (entries : List (String × Value)) : List String :=
  entries.map (·.1) |>.filter (!knownNames.contains ·)

theorem knownNames_perm : knownNames.Perm (kinds.map (·.1)) := by
  decide

/-- What is wrong with some entries: a name that no setting has, or a value that its setting does
    not admit. -/
inductive Wrong (entries : List (String × Value)) : Problem → Prop where
  | unknown (hunknown : unknownNames entries ≠ []) :
      Wrong entries (.unknownSettings (sortDistinct (unknownNames entries)))
  | value {name : String} {kind : Kind} {value : Value} (hkind : (name, kind) ∈ kinds)
      (hgiven : valueOf? entries name = some value) (hnot : ¬ kind.Admits value) :
      Wrong entries (kind.problem name)

/-- A setting is what its value stands for, or its default if there is no value. -/
def Follows (entries : List (String × Value)) (name : String) (Stands : Value → α → Prop)
    (default x : α) : Prop :=
  (valueOf? entries name).elim (x = default) (Stands · x)

/-- What comes of reading one setting: its default, what its value stands for, or the problem that
    its value is not of its kind. -/
inductive Read (entries : List (String × Value)) (name : String) (kind : Kind)
    (Stands : Value → α → Prop) (default : α) : Except Problem α → Prop where
  | absent (hnone : valueOf? entries name = none) :
      Read entries name kind Stands default (.ok default)
  | taken {value : Value} {x : α} (hgiven : valueOf? entries name = some value)
      (hadmits : kind.Admits value) (hstands : Stands value x) :
      Read entries name kind Stands default (.ok x)
  | refused {value : Value} (hgiven : valueOf? entries name = some value)
      (hnot : ¬ kind.Admits value) :
      Read entries name kind Stands default (.error (kind.problem name))

section Read

variable {kind : Kind} {Stands : Value → α → Prop} {default x : α} {problem : Problem}

theorem Read.follows (hread : Read entries name kind Stands default (.ok x)) :
    Follows entries name Stands default x := by
  cases hread with
  | absent hnone => simp [Follows, hnone]
  | taken hgiven _ hstands => simpa [Follows, hgiven] using hstands

theorem Read.admits (hread : Read entries name kind Stands default (.ok x))
    (hgiven : valueOf? entries name = some value) : kind.Admits value := by
  cases hread with
  | absent hnone => simp [hnone] at hgiven
  | taken htaken hadmits _ =>
    obtain rfl := Option.some.inj (htaken.symm.trans hgiven)
    exact hadmits

theorem Read.wrong (hread : Read entries name kind Stands default (.error problem))
    (hkind : (name, kind) ∈ kinds) : Wrong entries problem := by
  cases hread with
  | refused hgiven hnot => exact .value hkind hgiven hnot

/-- A setting is read as it should be if all three cases are: no value, one of the kind, and one
    that is not. -/
theorem read_of_cases {result : Except Problem α}
    (habsent : valueOf? entries name = none → result = .ok default)
    (htaken : ∀ value, valueOf? entries name = some value → kind.Admits value →
      ∃ x, Stands value x ∧ result = .ok x)
    (hrefused : ∀ value, valueOf? entries name = some value → ¬ kind.Admits value →
      result = .error (kind.problem name)) : Read entries name kind Stands default result := by
  cases hgiven : valueOf? entries name with
  | none =>
    rw [habsent hgiven]
    exact .absent hgiven
  | some value =>
    by_cases hadmits : kind.Admits value
    · obtain ⟨x, hstands, hresult⟩ := htaken value hgiven hadmits
      rw [hresult]
      exact .taken hgiven hadmits hstands
    · rw [hrefused value hgiven hadmits]
      exact .refused hgiven hadmits

end Read

theorem mapM_text?_eq_some_iff {items : List Value} :
    items.mapM Value.text? = some names ↔ items = names.map .text := by
  induction items generalizing names with
  | nil => cases names <;> simp
  | cons item rest ih =>
    rw [List.mapM_cons]
    cases item with
    | text name =>
      cases hrest : rest.mapM Value.text? with
      | none =>
        have hnone : ∀ others : List String, rest ≠ others.map .text := by
          intro others hothers
          simp [ih.mpr hothers] at hrest
        cases names with
        | nil => simp [Value.text?]
        | cons first others => simpa [Value.text?] using fun _ => hnone others
      | some texts =>
        obtain rfl := ih.mp hrest
        have hinjective : Function.Injective Value.text := fun _ _ => Value.text.inj
        cases names with
        | nil => simp [Value.text?]
        | cons first others => simp [Value.text?, hinjective.list_map.eq_iff]
    | null | boolean _ | integer _ | list _ | other => cases names <;> simp [Value.text?]

theorem names?_eq_some_iff : value.names? = some names ↔ value.Lists names := by
  cases value with
  | list items => simp [Value.names?, Value.Lists, mapM_text?_eq_some_iff]
  | text name => simp [Value.names?, Value.Lists, eq_comm]
  | null | boolean _ | integer _ | other => simp [Value.names?, Value.Lists]

theorem namesOf_of_lists {default : List String} (hgiven : valueOf? entries name = some value)
    (hlists : value.Lists names) : namesOf entries name default = .ok names := by
  simp only [namesOf, hgiven, names?_eq_some_iff.mpr hlists]

theorem boundOf_of_ofBound {minimum : Int} {bound : Option Int}
    (hgiven : valueOf? entries name = some (.ofBound bound)) (hbound : ∀ n ∈ bound, minimum ≤ n) :
    boundOf entries name minimum = .ok bound := by
  rw [boundOf, hgiven]
  cases bound with
  | none => rfl
  | some n => exact if_neg (Int.not_lt.mpr (hbound n rfl))

theorem flagOf_of_boolean {flag default : Bool}
    (hgiven : valueOf? entries name = some (.boolean flag)) :
    flagOf entries name default = .ok flag := by
  rw [flagOf, hgiven]

theorem read_namesOf (entries : List (String × Value)) (name : String) (default : List String) :
    Read entries name .names Value.Lists default (namesOf entries name default) := by
  refine read_of_cases (fun hnone => ?_) (fun value hgiven hadmits => ?_)
    fun value hgiven hnot => ?_
  · rw [namesOf, hnone]
  · obtain ⟨names, hlists⟩ := hadmits
    exact ⟨names, hlists, namesOf_of_lists hgiven hlists⟩
  · have hnone : value.names? = none := Option.eq_none_iff_forall_ne_some.mpr fun names hnames =>
      hnot ⟨names, names?_eq_some_iff.mp hnames⟩
    simp only [namesOf, hgiven, hnone, Kind.problem]

theorem read_boundOf (entries : List (String × Value)) (name : String) (minimum : Int) :
    Read entries name (.bound minimum) (fun value bound => value = .ofBound bound) none
      (boundOf entries name minimum) := by
  refine read_of_cases (fun hnone => ?_) (fun value hgiven hadmits => ?_)
    fun value hgiven hnot => ?_
  · rw [boundOf, hnone]
  · obtain ⟨bound, rfl, hbound⟩ := hadmits
    exact ⟨bound, rfl, boundOf_of_ofBound hgiven hbound⟩
  · rw [boundOf, hgiven]
    cases value with
    | null => exact absurd ⟨none, rfl, by simp⟩ hnot
    | integer n =>
      refine if_pos (Int.not_le.mp fun hle => hnot ⟨some n, rfl, ?_⟩)
      simpa using hle
    | boolean _ | text _ | list _ | other => rfl

theorem read_flagOf (entries : List (String × Value)) (name : String) (default : Bool) :
    Read entries name .flag (fun value flag => value = .boolean flag) default
      (flagOf entries name default) := by
  refine read_of_cases (fun hnone => ?_) (fun value hgiven hadmits => ?_)
    fun value hgiven hnot => ?_
  · rw [flagOf, hnone]
  · obtain ⟨flag, rfl⟩ := hadmits
    exact ⟨flag, rfl, flagOf_of_boolean hgiven⟩
  · rw [flagOf, hgiven]
    cases value with
    | boolean flag => exact absurd ⟨flag, rfl⟩ hnot
    | null | integer _ | text _ | list _ | other => rfl

/-- A bound that is read is not below its minimum. -/
theorem le_of_boundOf {minimum : Int} {bound : Option Int}
    (hread : boundOf entries name minimum = .ok bound) : ∀ n ∈ bound, minimum ≤ n := by
  have hfollows := (hread ▸ read_boundOf entries name minimum).follows
  cases hgiven : valueOf? entries name with
  | none =>
    obtain rfl : bound = none := by simpa [Follows, hgiven] using hfollows
    simp
  | some value =>
    obtain rfl : value = .ofBound bound := by simpa [Follows, hgiven] using hfollows
    obtain ⟨other, heq, hother⟩ := (hread ▸ read_boundOf entries name minimum).admits hgiven
    obtain rfl := Value.ofBound_injective heq
    exact hother

theorem ofEntries_of_unknown (hunknown : unknownNames entries ≠ []) :
    ofEntries entries = .error (.unknownSettings (sortDistinct (unknownNames entries))) := by
  rw [ofEntries]
  exact if_pos (by simpa [unknownNames] using hunknown)

/-- Settings, setting by setting. -/
theorem ofEntries_eq_ok_iff (hknown : unknownNames entries = []) :
    ofEntries entries = .ok settings ↔ ∃ extensions dirs,
      namesOf entries "roots" ({} : Settings).roots = .ok settings.roots ∧
      namesOf entries "include_ext" ({} : SearchFilter).extensions = .ok extensions ∧
      namesOf entries "exclude_dirs" ({} : SearchFilter).excludedDirs = .ok dirs ∧
      boundOf entries "max_depth" 0 = .ok settings.filter.maxDepth ∧
      boundOf entries "max_workers" 1 = .ok settings.maxWorkers ∧
      flagOf entries "allow_cycles" ({} : Settings).allowCycles = .ok settings.allowCycles ∧
      settings.filter.extensions = normalizeExtensions extensions ∧
      settings.filter.excludedDirs = sortDistinct dirs := by
  rw [unknownNames] at hknown
  simp only [ofEntries, hknown, List.isEmpty_nil, Bool.not_true, Bool.false_eq_true, if_false,
    Except.bind_eq_ok_iff]
  constructor
  · rintro ⟨roots, hroots, extensions, hextensions, dirs, hdirs, depth, hdepth, workers, hworkers,
      flag, hflag, hsettings⟩
    cases hsettings
    exact ⟨extensions, dirs, hroots, hextensions, hdirs, hdepth, hworkers, hflag, rfl, rfl⟩
  · rintro ⟨extensions, dirs, hroots, hextensions, hdirs, hdepth, hworkers, hflag, hset, hdirset⟩
    refine ⟨_, hroots, extensions, hextensions, dirs, hdirs, _, hdepth, _, hworkers, _, hflag, ?_⟩
    rw [← hset, ← hdirset]
    rfl

theorem wrong_of_ofEntries {problem : Problem} (herror : ofEntries entries = .error problem) :
    Wrong entries problem := by
  by_cases hknown : unknownNames entries = []
  · rw [unknownNames] at hknown
    simp only [ofEntries, hknown, List.isEmpty_nil, Bool.not_true, Bool.false_eq_true, if_false,
      Except.bind_eq_error_iff] at herror
    rcases herror with hroots | ⟨_, -, hextensions | ⟨_, -, hdirs | ⟨_, -, hdepth |
      ⟨_, -, hworkers | ⟨_, -, hflag | ⟨_, -, hmade⟩⟩⟩⟩⟩⟩
    · exact (hroots ▸ read_namesOf entries "roots" _).wrong (by simp [kinds])
    · exact (hextensions ▸ read_namesOf entries "include_ext" _).wrong (by simp [kinds])
    · exact (hdirs ▸ read_namesOf entries "exclude_dirs" _).wrong (by simp [kinds])
    · exact (hdepth ▸ read_boundOf entries "max_depth" _).wrong (by simp [kinds])
    · exact (hworkers ▸ read_boundOf entries "max_workers" _).wrong (by simp [kinds])
    · exact (hflag ▸ read_flagOf entries "allow_cycles" _).wrong (by simp [kinds])
    · cases hmade
  · rw [ofEntries_of_unknown hknown] at herror
    cases herror
    exact .unknown hknown

theorem known_of_ofEntries (hok : ofEntries entries = .ok settings) :
    unknownNames entries = [] := by
  by_contra hunknown
  rw [ofEntries_of_unknown hunknown] at hok
  cases hok

theorem not_wrong_of_ofEntries (hok : ofEntries entries = .ok settings) (problem : Problem) :
    ¬ Wrong entries problem := by
  have hknown := known_of_ofEntries hok
  obtain ⟨extensions, dirs, hroots, hextensions, hdirs, hdepth, hworkers, hflag, -, -⟩ :=
    (ofEntries_eq_ok_iff hknown).mp hok
  rintro (hunknown | @⟨name, kind, value, hkind, hgiven, hnot⟩)
  · exact hunknown hknown
  · simp only [kinds, List.mem_cons, Prod.mk.injEq, List.not_mem_nil, or_false] at hkind
    rcases hkind with ⟨rfl, rfl⟩ | ⟨rfl, rfl⟩ | ⟨rfl, rfl⟩ | ⟨rfl, rfl⟩ | ⟨rfl, rfl⟩ | ⟨rfl, rfl⟩
    · exact hnot ((hroots ▸ read_namesOf entries "roots" _).admits hgiven)
    · exact hnot ((hextensions ▸ read_namesOf entries "include_ext" _).admits hgiven)
    · exact hnot ((hdirs ▸ read_namesOf entries "exclude_dirs" _).admits hgiven)
    · exact hnot ((hdepth ▸ read_boundOf entries "max_depth" _).admits hgiven)
    · exact hnot ((hworkers ▸ read_boundOf entries "max_workers" _).admits hgiven)
    · exact hnot ((hflag ▸ read_flagOf entries "allow_cycles" _).admits hgiven)

/-- Settings as their values say, each with its default if it is not given. Extensions and excluded
    directories are sets. -/
structure Takes (entries : List (String × Value)) (settings : Settings) : Prop where
  roots : Follows entries "roots" Value.Lists [] settings.roots
  extensions : Follows entries "include_ext"
    (fun value extensions => ∃ names, value.Lists names ∧ extensions = normalizeExtensions names)
    ({} : SearchFilter).extensions settings.filter.extensions
  excludedDirs : Follows entries "exclude_dirs"
    (fun value dirs => ∃ names, value.Lists names ∧ dirs = sortDistinct names)
    ({} : SearchFilter).excludedDirs settings.filter.excludedDirs
  maxDepth : Follows entries "max_depth" (fun value bound => value = .ofBound bound) none
    settings.filter.maxDepth
  maxWorkers : Follows entries "max_workers" (fun value bound => value = .ofBound bound) none
    settings.maxWorkers
  allowCycles : Follows entries "allow_cycles" (fun value flag => value = .boolean flag) true
    settings.allowCycles

end Settings

end ImportCycles
