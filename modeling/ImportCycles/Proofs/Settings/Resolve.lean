import ImportCycles.CommandLine.Parse
import ImportCycles.Proofs.Settings.Load
import ImportCycles.Proofs.Settings.Search
import ImportCycles.Settings.Formats
import ImportCycles.Settings.Resolve

namespace ImportCycles

namespace Settings

open CommandLine (Arguments parse)

variable {formats : Formats} {d : Disk} {a : Arguments} {breach : Breach}

/-- The file of settings that a command line leads to. -/
inductive Consults (formats : Formats) (d : Disk) (a : Arguments) : Path → Prop where
  | named {file : String} (hconfig : a.config.filter (!·.isEmpty) = some file) :
      Consults formats d a (Path.ofString file)
  | found {path : Path} (hconfig : a.config.filter (!·.isEmpty) = none)
      (hfind : find formats d (Path.absolute d.workingDirectory) = .ok (some path)) :
      Consults formats d a path

/-- Where on the way from a command line to settings a breach can be met: in the search for a file,
    in the file, or, if both went well, in the name of a list of roots. -/
inductive ResolveBreach (formats : Formats) (d : Disk) (a : Arguments) : Breach → Prop where
  | search {breach : Breach} (hconfig : a.config.filter (!·.isEmpty) = none)
      (hfind : FindBreach formats d (Path.absolute d.workingDirectory) defaultFiles breach) :
      ResolveBreach formats d a breach
  | file {path : Path} {breach : Breach} (hconsults : Consults formats d a path)
      (hload : LoadBreach formats d path breach) : ResolveBreach formats d a breach
  | list {settings : Settings} {file : String} (hbase : base formats d a.config = .ok settings)
      (hfile : a.file.filter (!·.isEmpty) = some file) (hnul : Char.ofNat 0 ∈ file.toList) :
      ResolveBreach formats d a .embeddedNul

theorem base_of_search (hconfig : a.config.filter (!·.isEmpty) = none) :
    base formats d a.config = (find formats d (Path.absolute d.workingDirectory)).bind fun
      | some path => load formats d path
      | none => .ok {} := by
  rw [base, hconfig]
  dsimp only [bind, Except.bind]
  split
  · rfl
  · split <;> rfl

theorem base_of_consults {path : Path} (hconsults : Consults formats d a path) :
    base formats d a.config = load formats d path := by
  cases hconsults with
  | named hconfig => rw [base, hconfig]
  | found hconfig hfind =>
    rw [base_of_search hconfig, hfind]
    rfl

theorem base_eq_breach_iff : base formats d a.config = .error (.breach breach) ↔
    (a.config.filter (!·.isEmpty) = none ∧
      FindBreach formats d (Path.absolute d.workingDirectory) defaultFiles breach) ∨
    ∃ path, Consults formats d a path ∧ LoadBreach formats d path breach := by
  constructor
  · intro hbase
    cases hconfig : a.config.filter (!·.isEmpty) with
    | some file =>
      have hconsults : Consults formats d a (Path.ofString file) := .named hconfig
      rw [base_of_consults hconsults] at hbase
      exact .inr ⟨_, hconsults, load_eq_breach_iff.mp hbase⟩
    | none =>
      rw [base_of_search hconfig] at hbase
      cases hfind : find formats d (Path.absolute d.workingDirectory) with
      | error failure =>
        rw [hfind] at hbase
        cases hbase
        exact .inl ⟨rfl, findAmong_eq_breach_iff.mp hfind⟩
      | ok found =>
        rw [hfind] at hbase
        cases found with
        | none => cases hbase
        | some path => exact .inr ⟨path, .found hconfig hfind, load_eq_breach_iff.mp hbase⟩
  · rintro (⟨hconfig, hsearch⟩ | ⟨path, hconsults, hload⟩)
    · have hfind : find formats d (Path.absolute d.workingDirectory) = .error (.breach breach) :=
        findAmong_eq_breach_iff.mpr hsearch
      rw [base_of_search hconfig, hfind]
      rfl
    · rw [base_of_consults hconsults]
      exact load_eq_breach_iff.mpr hload

theorem namedRoots_eq_breach_iff : namedRoots d a = .error (.breach breach) ↔
    (∃ file, a.file.filter (!·.isEmpty) = some file ∧ Char.ofNat 0 ∈ file.toList) ∧
      breach = .embeddedNul := by
  rw [namedRoots]
  cases a.file.filter (!·.isEmpty) with
  | none => simp
  | some file =>
    have hlist : readSourceList d (Path.ofString file) = .error (.breach breach) ↔
        Char.ofNat 0 ∈ file.toList ∧ breach = .embeddedNul := by
      rw [readSourceList_eq_breach_iff, Path.hasNul_ofString_iff]
    cases hread : readSourceList d (Path.ofString file) with
    | ok roots => simpa [hread, Except.map] using hlist
    | error failure => simpa [hread, Except.map] using hlist

theorem resolve_of_base {settings : Settings} (hbase : base formats d a.config = .ok settings) :
    resolve formats d a = (namedRoots d a).map fun roots =>
      { roots := if roots.isEmpty then settings.roots else roots
        filter := overrideFilter settings.filter a
        allowCycles := settings.allowCycles && !a.strict
        maxWorkers := a.jobs.or settings.maxWorkers } := by
  rw [resolve, hbase]
  rfl

theorem resolve_of_base_error {failure : Failure}
    (hbase : base formats d a.config = .error failure) : resolve formats d a = .error failure := by
  rw [resolve, hbase]
  rfl

theorem resolve_eq_breach_iff :
    resolve formats d a = .error (.breach breach) ↔ ResolveBreach formats d a breach := by
  constructor
  · intro hresolve
    cases hbase : base formats d a.config with
    | error failure =>
      rw [resolve_of_base_error hbase] at hresolve
      cases hresolve
      rcases base_eq_breach_iff.mp hbase with ⟨hconfig, hfind⟩ | ⟨path, hconsults, hload⟩
      · exact .search hconfig hfind
      · exact .file hconsults hload
    | ok settings =>
      rw [resolve_of_base hbase] at hresolve
      cases hroots : namedRoots d a with
      | ok roots =>
        rw [hroots] at hresolve
        cases hresolve
      | error failure =>
        rw [hroots] at hresolve
        cases hresolve
        obtain ⟨⟨file, hfile, hnul⟩, rfl⟩ := namedRoots_eq_breach_iff.mp hroots
        exact .list hbase hfile hnul
  · intro hbreach
    cases hbreach with
    | search hconfig hfind =>
      exact resolve_of_base_error (base_eq_breach_iff.mpr (.inl ⟨hconfig, hfind⟩))
    | file hconsults hload =>
      exact resolve_of_base_error (base_eq_breach_iff.mpr (.inr ⟨_, hconsults, hload⟩))
    | list hbase hfile hnul =>
      rw [resolve_of_base hbase, namedRoots_eq_breach_iff.mpr ⟨⟨_, hfile, hnul⟩, rfl⟩]
      rfl

/-- Settings fail with a problem, but for a known list of breaches. Whatever is on the disk and
    whatever the command line says, making settings ends with a breach exactly if the search for a
    file of settings, that file, or the name of the list of roots holds one of the values that are
    listed, and each function on the way lets through just its own. In all other cases there are
    settings, or there is a problem to report. -/
theorem resolve_breach_exact (formats : Formats) (d : Disk) (a : Arguments) :
    (∀ entries breach, ofMapping entries = .error (.breach breach) ↔
      (∃ value, (none, value) ∈ entries) ∧ breach = .nameNotText) ∧
    (∀ p breach, load formats d p = .error (.breach breach) ↔ LoadBreach formats d p breach) ∧
    (∀ directory breach, find formats d directory = .error (.breach breach) ↔
      FindBreach formats d directory defaultFiles breach) ∧
    (∀ p breach, readSourceList d p = .error (.breach breach) ↔
      p.HasNul ∧ breach = .embeddedNul) ∧
    (∀ breach, resolve formats d a = .error (.breach breach) ↔ ResolveBreach formats d a breach) ∧
    ((∃ settings, resolve formats d a = .ok settings) ∨
      (∃ problem, resolve formats d a = .error (.problem problem)) ∨
      ∃ breach, ResolveBreach formats d a breach) := by
  refine ⟨fun _ _ => ofMapping_eq_breach_iff, fun _ _ => load_eq_breach_iff,
    fun _ _ => findAmong_eq_breach_iff, fun _ _ => readSourceList_eq_breach_iff,
    fun _ => resolve_eq_breach_iff, ?_⟩
  cases hresolve : resolve formats d a with
  | ok settings => exact .inl ⟨settings, rfl⟩
  | error failure =>
    cases failure with
    | problem problem => exact .inr (.inl ⟨problem, rfl⟩)
    | breach breach => exact .inr (.inr ⟨breach, resolve_eq_breach_iff.mp hresolve⟩)

/-- A file of settings in which a number stands where the name of a setting is due. -/
def numberAsName : Disk where
  top := .dir [(".depcycle.yaml", .file (Utf8.encode "1: a\n")), ("src", .dir [])]

/-- An unknown setting is a problem to report, but not if its name is a number. -/
theorem resolve_numberAsName :
    parse ["src"] = .ok { roots := ["src"] } ∧
      resolve .standard numberAsName { roots := ["src"] } = .error (.breach .nameNotText) := by
  refine ⟨by decide, by decide +kernel⟩

end Settings

end ImportCycles
