import ImportCycles.Proofs.Disk.Fault
import ImportCycles.Settings.Load

namespace ImportCycles

theorem mapM_eq_none_iff {α β : Type} {f : α → Option β} {xs : List α} :
    xs.mapM f = none ↔ ∃ x ∈ xs, f x = none := by
  induction xs with
  | nil => simp
  | cons x rest ih =>
    rw [List.mapM_cons]
    cases hx : f x with
    | none => simp [hx]
    | some y =>
      cases hrest : rest.mapM f with
      | none => simpa [hx, hrest] using ih.mp hrest
      | some ys =>
        have hnone : ¬ ∃ x ∈ rest, f x = none := by simp [← ih, hrest]
        simpa [hx, hrest] using hnone

namespace Settings

variable {formats : Formats} {d : Disk} {p : Path} {breach : Breach} {text : List Char}

theorem readTextOr_eq_ok_iff {problem : String → Problem} :
    readTextOr problem d p = .ok text ↔ d.readText p = .ok text := by
  rw [readTextOr]
  split <;> simp_all

theorem readText_eq_embeddedNul_iff :
    d.readText p = .error (.fault .embeddedNul) ↔ p.HasNul := by
  rw [← Disk.read_eq_embeddedNul_iff (d := d), Disk.readText]
  cases d.read p with
  | ok bytes => cases hdecode : Utf8.decode bytes <;> simp [hdecode]
  | error reason => simp

theorem readTextOr_eq_breach_iff (problem : String → Problem) :
    readTextOr problem d p = .error (.breach breach) ↔ p.HasNul ∧ breach = .embeddedNul := by
  rw [← readText_eq_embeddedNul_iff (d := d), readTextOr]
  split
  · rename_i hread
    simp [hread]
  · rename_i hread
    simp [hread, eq_comm]
  · rename_i fault hother hread
    simpa [hread] using fun hnul _ => hother hnul

/-- A list of roots that cannot be read is a problem, unless no system takes its path. -/
theorem readSourceList_eq_breach_iff :
    readSourceList d p = .error (.breach breach) ↔ p.HasNul ∧ breach = .embeddedNul := by
  rw [← readTextOr_eq_breach_iff (d := d) (.listUnreadable p.toString), readSourceList]
  cases readTextOr (.listUnreadable p.toString) d p <;> simp [Except.map]

/-- Whatever its values are, a mapping makes settings or a problem if all its names are texts. -/
theorem ofMapping_eq_breach_iff {entries : List (Option String × Value)} :
    ofMapping entries = .error (.breach breach) ↔
      (∃ value, (none, value) ∈ entries) ∧ breach = .nameNotText := by
  rw [ofMapping]
  split
  · rename_i hnone
    obtain ⟨⟨name, value⟩, hentry, hname⟩ := mapM_eq_none_iff.mp hnone
    obtain rfl : name = none := by simpa using hname
    simpa [eq_comm] using fun _ => ⟨value, hentry⟩
  · rename_i named hsome
    have hnamed := mt mapM_eq_none_iff.mpr (hsome.trans_ne (Option.some_ne_none named))
    refine iff_of_false (by split <;> simp) ?_
    rintro ⟨⟨value, hentry⟩, -⟩
    exact hnamed ⟨_, hentry, rfl⟩

/-- The settings of what a file holds. -/
def ofDocument (path : String) : Document → Except Failure Settings
  | .empty => ofMapping []
  | .mapping entries => ofMapping entries
  | .other => .error (.problem (.notMapping path))

theorem ofDocument_eq_breach_iff {path : String} {document : Document} :
    ofDocument path document = .error (.breach breach) ↔
      (∃ entries value, document = .mapping entries ∧ (none, value) ∈ entries) ∧
        breach = .nameNotText := by
  cases document with
  | empty => simp [ofDocument, ofMapping_eq_breach_iff]
  | mapping entries => simp [ofDocument, ofMapping_eq_breach_iff]
  | other => simp [ofDocument]

def IsYaml (p : Path) : Prop :=
  Text.lower p.suffix = ".yaml" ∨ Text.lower p.suffix = ".yml"

def IsToml (p : Path) : Prop :=
  Text.lower p.suffix = ".toml"

/-- What a file of settings can hold, or be called, that is not reported as a problem: values that
    the reader of the format itself fails on, a name that is no text, and something else than a
    table where the tools are expected. -/
inductive LoadBreach (formats : Formats) (d : Disk) (p : Path) : Breach → Prop where
  | path (hnul : p.HasNul) : LoadBreach formats d p .embeddedNul
  | yamlValue {text : List Char} {breach : Breach} (htext : d.readText p = .ok text)
      (hyaml : IsYaml p) (hread : formats.yaml text = .error (.breach breach)) :
      LoadBreach formats d p breach
  | yamlName {text : List Char} {entries : List (Option String × Value)} {value : Value}
      (htext : d.readText p = .ok text) (hyaml : IsYaml p)
      (hread : formats.yaml text = .ok (.mapping entries)) (hentry : (none, value) ∈ entries) :
      LoadBreach formats d p .nameNotText
  | tomlValue {text : List Char} {breach : Breach} (htext : d.readText p = .ok text)
      (htoml : IsToml p) (hread : formats.toml text = .error (.breach breach)) :
      LoadBreach formats d p breach
  | tomlTool {text : List Char} {table : Toml.Table} {tool : Toml.Value}
      (htext : d.readText p = .ok text) (htoml : IsToml p) (hread : formats.toml text = .ok table)
      (htool : table.lookup "tool" = some tool) (hkind : ∀ tools, tool ≠ .table tools) :
      LoadBreach formats d p .toolNotTable

theorem IsYaml.not_isToml (hyaml : IsYaml p) : ¬ IsToml p := by
  rcases hyaml with hsuffix | hsuffix
  · simp [IsToml, hsuffix]
  · simp [IsToml, hsuffix]

theorem documentOfToml_eq_error_iff {table : Toml.Table} :
    documentOfToml table = .error breach ↔
      (∃ tool, table.lookup "tool" = some tool ∧ ∀ tools, tool ≠ .table tools) ∧
        breach = .toolNotTable := by
  rw [documentOfToml]
  split
  · rename_i hnone
    simp [hnone]
  · rename_i tools htool
    split <;> simp [htool]
  · rename_i tool hother htool
    have hkind : ∀ tools, tool ≠ .table tools := fun tools heq => hother tools (heq ▸ rfl)
    simp [htool, hkind, eq_comm]

/-- The names of a TOML table are texts. -/
theorem named_of_documentOfToml {table : Toml.Table} {entries : List (Option String × Value)}
    (hdocument : documentOfToml table = .ok (.mapping entries)) (value : Value) :
    (none, value) ∉ entries := by
  rw [documentOfToml] at hdocument
  split at hdocument
  · cases hdocument
    simp
  · split at hdocument
    · cases hdocument
      simp
    · cases hdocument
      simp
    · cases hdocument
  · cases hdocument

theorem load_of_text (htext : d.readText p = .ok text) :
    load formats d p =
      (parseDocument formats p.toString (Text.lower p.suffix) text).bind
        (ofDocument p.toString) := by
  rw [load, readTextOr_eq_ok_iff.mpr htext]
  dsimp only [bind, Except.bind]
  split <;> rfl

theorem parseDocument_of_isYaml (hyaml : IsYaml p) (path : String) (text : List Char) :
    parseDocument formats path (Text.lower p.suffix) text =
      match formats.yaml text with
      | .ok document => .ok document
      | .error fault => .error (fault.failure path) := by
  rw [parseDocument]
  exact if_pos hyaml

theorem parseDocument_of_isToml (htoml : IsToml p) (path : String) (text : List Char) :
    parseDocument formats path (Text.lower p.suffix) text =
      match formats.toml text with
      | .error fault => .error (fault.failure path)
      | .ok table =>
        match documentOfToml table with
        | .ok document => .ok document
        | .error breach => .error (.breach breach) := by
  rw [parseDocument]
  exact (if_neg fun hyaml => IsYaml.not_isToml hyaml htoml).trans (if_pos htoml)

theorem LoadBreach.load_eq (hbreach : LoadBreach formats d p breach) :
    load formats d p = .error (.breach breach) := by
  cases hbreach with
  | path hnul =>
    rw [load, (readTextOr_eq_breach_iff _).mpr ⟨hnul, rfl⟩]
    rfl
  | yamlValue htext hyaml hread =>
    rw [load_of_text htext, parseDocument_of_isYaml hyaml, hread]
    rfl
  | yamlName htext hyaml hread hentry =>
    rw [load_of_text htext, parseDocument_of_isYaml hyaml, hread]
    exact (@ofDocument_eq_breach_iff _ p.toString _).mpr ⟨⟨_, _, rfl, hentry⟩, rfl⟩
  | tomlValue htext htoml hread =>
    rw [load_of_text htext, parseDocument_of_isToml htoml, hread]
    rfl
  | tomlTool htext htoml hread htool hkind =>
    rw [load_of_text htext, parseDocument_of_isToml htoml, hread]
    dsimp only
    rw [documentOfToml_eq_error_iff.mpr ⟨⟨_, htool, hkind⟩, rfl⟩]
    rfl

theorem FormatFault.failure_eq_breach_iff {fault : FormatFault} {path : String} :
    fault.failure path = .breach breach ↔ fault = .breach breach := by
  cases fault <;> simp [FormatFault.failure]

/-- With a YAML text a breach comes from the reader of the format, or from a name. -/
theorem loadBreach_of_isYaml (hyaml : IsYaml p) (htext : d.readText p = .ok text)
    (hload : load formats d p = .error (.breach breach)) : LoadBreach formats d p breach := by
  rw [load_of_text htext, parseDocument_of_isYaml hyaml] at hload
  cases hread : formats.yaml text with
  | error fault =>
    rw [hread] at hload
    obtain rfl := FormatFault.failure_eq_breach_iff.mp (Except.error.inj hload)
    exact .yamlValue htext hyaml hread
  | ok document =>
    rw [hread] at hload
    obtain ⟨⟨entries, value, rfl, hentry⟩, rfl⟩ := ofDocument_eq_breach_iff.mp hload
    exact .yamlName htext hyaml hread hentry

/-- With a TOML text it comes from the reader, or from a tool entry that is no table. -/
theorem loadBreach_of_isToml (htoml : IsToml p) (htext : d.readText p = .ok text)
    (hload : load formats d p = .error (.breach breach)) : LoadBreach formats d p breach := by
  rw [load_of_text htext, parseDocument_of_isToml htoml] at hload
  cases hread : formats.toml text with
  | error fault =>
    rw [hread] at hload
    obtain rfl := FormatFault.failure_eq_breach_iff.mp (Except.error.inj hload)
    exact .tomlValue htext htoml hread
  | ok table =>
    rw [hread] at hload
    dsimp only at hload
    cases hdocument : documentOfToml table with
    | error found =>
      rw [hdocument] at hload
      cases hload
      obtain ⟨⟨tool, htool, hkind⟩, rfl⟩ := documentOfToml_eq_error_iff.mp hdocument
      exact .tomlTool htext htoml hread htool hkind
    | ok document =>
      rw [hdocument] at hload
      obtain ⟨⟨entries, value, rfl, hunnamed⟩, -⟩ := ofDocument_eq_breach_iff.mp hload
      exact absurd hunnamed (named_of_documentOfToml hdocument value)

theorem load_of_otherFormat (hyaml : ¬ IsYaml p) (htoml : ¬ IsToml p)
    (htext : d.readText p = .ok text) :
    load formats d p = .error (.problem (.unsupportedFormat p.toString)) := by
  have hparse : parseDocument formats p.toString (Text.lower p.suffix) text =
      .error (.problem (.unsupportedFormat p.toString)) := by
    rw [parseDocument]
    exact (if_neg hyaml).trans (if_neg htoml)
  rw [load_of_text htext, hparse]
  rfl

/-- Loading a file fails with a breach exactly for what such a file can hold or be called. -/
theorem load_eq_breach_iff :
    load formats d p = .error (.breach breach) ↔ LoadBreach formats d p breach := by
  refine ⟨fun hload => ?_, LoadBreach.load_eq⟩
  cases hread : readTextOr (.unreadable p.toString) d p with
  | error failure =>
    rw [load, hread] at hload
    cases hload
    obtain ⟨hnul, rfl⟩ := (readTextOr_eq_breach_iff _).mp hread
    exact .path hnul
  | ok text =>
    have htext := readTextOr_eq_ok_iff.mp hread
    by_cases hyaml : IsYaml p
    · exact loadBreach_of_isYaml hyaml htext hload
    · by_cases htoml : IsToml p
      · exact loadBreach_of_isToml htoml htext hload
      · rw [load_of_otherFormat hyaml htoml htext] at hload
        cases hload

end Settings

end ImportCycles
