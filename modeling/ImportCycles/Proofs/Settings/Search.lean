import ImportCycles.Proofs.Disk.Fault
import ImportCycles.Settings.Load

namespace ImportCycles

namespace Settings

variable {formats : Formats} {d : Disk} {breach : Breach}

/-- A value in which a name can be looked for. -/
def Searchable : Toml.Value → Prop
  | .table _ | .array _ | .text _ => True
  | .integer _ | .boolean _ | .other => False

theorem hasSection_eq_error_iff {table : Toml.Table} :
    hasSection table = .error breach ↔
      (∃ tool, table.lookup "tool" = some tool ∧ ¬ Searchable tool) ∧
        breach = .toolNotSearchable := by
  rw [hasSection]
  cases htool : table.lookup "tool" with
  | none => simp
  | some tool => cases tool <;> simp [Searchable, eq_comm]

/-- A default file that a search goes past: it is not there, or lacks a section for this program. -/
def PassedOver (formats : Formats) (d : Disk) (directory : Path) (name : String) : Prop :=
  d.isFile (directory.child name) = .ok false ∨
    (name = "pyproject.toml" ∧ d.isFile (directory.child name) = .ok true ∧
      fileHasSection formats d (directory.child name) = .ok false)

/-- What keeps a search from telling whether a default file counts: a link to a name that is too
    long, and in a file of other tools a value that TOML fails on, or one in which the section for
    this program cannot be looked for. -/
inductive CandidateBreach (formats : Formats) (d : Disk) (directory : Path) (name : String) :
    Breach → Prop where
  | nature (hfind : d.find (directory.child name) = .error .nameTooLong) :
      CandidateBreach formats d directory name .nameTooLong
  | value {text : List Char} {breach : Breach} (hname : name = "pyproject.toml")
      (hfile : d.isFile (directory.child name) = .ok true)
      (htext : d.readText (directory.child name) = .ok text)
      (hread : formats.toml text = .error (.breach breach)) :
      CandidateBreach formats d directory name breach
  | tool {text : List Char} {table : Toml.Table} {tool : Toml.Value}
      (hname : name = "pyproject.toml") (hfile : d.isFile (directory.child name) = .ok true)
      (htext : d.readText (directory.child name) = .ok text)
      (hread : formats.toml text = .ok table) (htool : table.lookup "tool" = some tool)
      (hkind : ¬ Searchable tool) : CandidateBreach formats d directory name .toolNotSearchable

/-- A search fails at the first default file that it cannot judge, if it goes past all before. -/
def FindBreach (formats : Formats) (d : Disk) (directory : Path) (names : List String)
    (breach : Breach) : Prop :=
  ∃ before name after, names = before ++ name :: after ∧
    (∀ earlier ∈ before, PassedOver formats d directory earlier) ∧
      CandidateBreach formats d directory name breach

variable {directory : Path} {name : String} {rest : List String}

theorem PassedOver.findAmong_eq (hpassed : PassedOver formats d directory name) :
    findAmong formats d directory (name :: rest) = findAmong formats d directory rest := by
  rw [findAmong]
  rcases hpassed with hmissing | ⟨hname, hfile, hsection⟩
  · simp only [hmissing]
  · simp only [hfile, if_pos hname, hsection]

theorem CandidateBreach.findAmong_eq (hbreach : CandidateBreach formats d directory name breach) :
    findAmong formats d directory (name :: rest) = .error (.breach breach) := by
  rw [findAmong]
  cases hbreach with
  | nature hfind => simp only [Disk.isFile_eq_error_iff.mpr ⟨hfind, rfl⟩]
  | value hname hfile htext hread =>
    have hsection : fileHasSection formats d (directory.child name) = .error breach := by
      simp only [fileHasSection, htext, hread]
    simp only [hfile, if_pos hname, hsection]
  | tool hname hfile htext hread htool hkind =>
    have hsection : fileHasSection formats d (directory.child name) =
        .error .toolNotSearchable := by
      simp only [fileHasSection, htext, hread]
      exact hasSection_eq_error_iff.mpr ⟨⟨_, htool, hkind⟩, rfl⟩
    simp only [hfile, if_pos hname, hsection]

theorem candidateBreach_of_fileHasSection (hname : name = "pyproject.toml")
    (hfile : d.isFile (directory.child name) = .ok true)
    (hsection : fileHasSection formats d (directory.child name) = .error breach) :
    CandidateBreach formats d directory name breach := by
  rw [fileHasSection] at hsection
  split at hsection
  · cases hsection
  · rename_i text htext
    split at hsection
    · rename_i table hread
      obtain ⟨⟨tool, htool, hkind⟩, rfl⟩ := hasSection_eq_error_iff.mp hsection
      exact .tool hname hfile htext hread htool hkind
    · cases hsection
    · rename_i hread
      cases hsection
      exact .value hname hfile htext hread

/-- What becomes of the first of several default files. -/
theorem findAmong_cons_cases (d : Disk) (directory : Path) (name : String) (rest : List String) :
    PassedOver formats d directory name ∨
      (∃ breach, CandidateBreach formats d directory name breach) ∨
      findAmong formats d directory (name :: rest) = .ok (some (directory.child name)) := by
  rw [findAmong]
  cases hfile : d.isFile (directory.child name) with
  | error reason =>
    exact .inr (.inl ⟨_, .nature (Disk.isFile_eq_error_iff.mp hfile).1⟩)
  | ok isFile =>
    cases isFile with
    | false => exact .inl (.inl hfile)
    | true =>
      by_cases hname : name = "pyproject.toml"
      · cases hsection : fileHasSection formats d (directory.child name) with
        | error breach =>
          exact .inr (.inl ⟨breach, candidateBreach_of_fileHasSection hname hfile hsection⟩)
        | ok counts =>
          cases counts with
          | false => exact .inl (.inr ⟨hname, hfile, hsection⟩)
          | true => exact .inr (.inr (by simp only [if_pos hname]))
      · exact .inr (.inr (by simp only [if_neg hname]))

theorem findAmong_eq_breach_iff {names : List String} :
    findAmong formats d directory names = .error (.breach breach) ↔
      FindBreach formats d directory names breach := by
  constructor
  · intro hfind
    induction names with
    | nil => cases hfind
    | cons name rest ih =>
      rcases findAmong_cons_cases d directory name rest with hpassed | ⟨found, hfound⟩ | hchosen
      · rw [hpassed.findAmong_eq] at hfind
        obtain ⟨before, other, after, rfl, hbefore, hbreach⟩ := ih hfind
        exact ⟨name :: before, other, after, rfl, List.forall_mem_cons.mpr ⟨hpassed, hbefore⟩,
          hbreach⟩
      · rw [hfound.findAmong_eq] at hfind
        cases hfind
        exact ⟨[], name, rest, rfl, by simp, hfound⟩
      · rw [hchosen] at hfind
        cases hfind
  · rintro ⟨before, name, after, rfl, hbefore, hbreach⟩
    induction before with
    | nil => exact hbreach.findAmong_eq
    | cons earlier more ih =>
      obtain ⟨hpassed, hmore⟩ := List.forall_mem_cons.mp hbefore
      rw [List.cons_append, hpassed.findAmong_eq]
      exact ih hmore

end Settings

end ImportCycles
