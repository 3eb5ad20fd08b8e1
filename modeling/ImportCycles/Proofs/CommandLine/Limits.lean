import ImportCycles.Proofs.CommandLine.Status
import ImportCycles.Proofs.Disk.Search
import ImportCycles.Proofs.Settings.Normal
import ImportCycles.Proofs.Settings.Resolve

namespace ImportCycles

namespace Settings

variable {formats : Formats} {d : Disk} {p : Path} {file : Option String} {settings : Settings}

theorem normal_default : Normal {} where
  maxDepth := by simp
  maxWorkers := by simp
  extensions := by decide +kernel

theorem normal_of_ofMapping {entries : List (Option String × Value)}
    (hmade : ofMapping entries = .ok settings) : Normal settings := by
  rw [ofMapping] at hmade
  split at hmade
  · cases hmade
  · split at hmade
    · rename_i hok
      cases hmade
      exact normal_of_ofEntries hok
    · cases hmade

theorem normal_of_load (hload : load formats d p = .ok settings) : Normal settings := by
  obtain ⟨text, htext, -⟩ : ∃ text, readTextOr (.unreadable p.toString) d p = .ok text ∧ _ :=
    Except.bind_eq_ok_iff.mp hload
  rw [load_of_text (readTextOr_eq_ok_iff.mp htext)] at hload
  obtain ⟨document, -, hmade⟩ := Except.bind_eq_ok_iff.mp hload
  cases document with
  | empty =>
    rw [ofDocument] at hmade
    exact normal_of_ofMapping hmade
  | mapping entries => exact normal_of_ofMapping hmade
  | other => cases hmade

/-- The settings of a file, or the usual ones, are within their bounds. -/
theorem normal_of_base (hbase : base formats d file = .ok settings) : Normal settings := by
  rw [base] at hbase
  split at hbase
  · exact normal_of_load hbase
  · obtain ⟨found, -, hmade⟩ := Except.bind_eq_ok_iff.mp hbase
    cases found with
    | some path => exact normal_of_load hmade
    | none =>
      cases hmade
      exact normal_default

/-- The limits of settings are those of the command line, or else of the file. -/
theorem limits_of_resolve {a : CommandLine.Arguments}
    (hresolve : resolve formats d a = .ok settings) :
    ∃ usual, Normal usual ∧ settings.filter.maxDepth = a.maxDepth.or usual.filter.maxDepth ∧
      settings.maxWorkers = a.jobs.or usual.maxWorkers := by
  rw [resolve, Except.bind_eq_ok_iff] at hresolve
  obtain ⟨usual, hbase, hrest⟩ := hresolve
  obtain ⟨roots, -, hmade⟩ := Except.bind_eq_ok_iff.mp hrest
  cases hmade
  exact ⟨usual, normal_of_base hbase, rfl, rfl⟩

end Settings

namespace Disk

variable {d : Disk} {f : SearchFilter} {root : Path} {paths : List Path}

/-- A search that may not even read its root sees nothing. -/
theorem files_eq_nil (hstop : f.stopsAt 0 = true) (hfiles : d.files f root = .ok paths) :
    paths = [] := by
  rw [files] at hfiles
  split at hfiles
  · rw [sightings_eq, sightDir, if_pos hstop] at hfiles
    cases hfiles
    rfl
  · cases hfiles
  · cases hfiles
  · cases hfiles

end Disk

namespace Build

variable {d : Disk} {f : SearchFilter}

theorem scanned_eq_nil (hstop : f.stopsAt 0 = true) (roots : List String) :
    scanned d f roots = [] := by
  refine List.flatMap_eq_nil_iff.mpr fun root _ => ?_
  rw [sourcesBelow]
  cases hfiles : d.files f (Path.ofString root) with
  | error fault => rfl
  | ok paths =>
    obtain rfl := Disk.files_eq_nil hstop hfiles
    rfl

end Build

namespace CommandLine

open Settings (Formats resolve)

variable {formats : Formats} {e : Encoding} {d : Disk} {a : Arguments} {args : List String}
  {settings : Settings}

/-- Some arguments lead to settings that a scan is run with. -/
structure Scans (formats : Formats) (d : Disk) (args : List String) (a : Arguments)
    (settings : Settings) : Prop where
  parsed : parse args = .ok a
  resolved : resolve formats d a = .ok settings
  unhindered : obstacle? settings = none

theorem Scans.run_eq (hscans : Scans formats d args a settings) :
    run formats e d args = scan e d a settings := by
  rw [run, hscans.parsed]
  dsimp only
  rw [hscans.resolved]
  dsimp only
  rw [hscans.unhindered]

/-- Without a scan the program stops, or complains. -/
theorem scans_or_stops (formats : Formats) (e : Encoding) (d : Disk) (args : List String) :
    (∃ a settings, Scans formats d args a settings) ∨
    (∃ stop, run formats e d args = .error stop) ∨
    ∃ complaint, run formats e d args = .ok (complain d complaint) := by
  unfold run
  cases hargs : parse args with
  | error exit => exact .inr (.inl ⟨_, rfl⟩)
  | ok a =>
    cases hresolve : resolve formats d a with
    | error failure =>
      cases failure with
      | breach breach => exact .inr (.inl ⟨.breach breach, by simp [hresolve]⟩)
      | problem problem =>
        exact .inr (.inr ⟨"Error: " ++ problem.message, by simp [hresolve]⟩)
    | ok settings =>
      cases hready : obstacle? settings with
      | some obstacle => exact .inr (.inr ⟨obstacle, by simp [hresolve, hready]⟩)
      | none => exact .inl ⟨a, settings, hargs, hresolve, hready⟩

/-- A scan that reads no file ends with the report of an empty graph. -/
theorem scan_of_scanned_eq_nil (hready : obstacle? settings = none)
    (hnone : Build.failures d settings.filter settings.roots = [])
    (hscanned : Build.scanned d settings.filter settings.roots = []) :
    scan e d a settings = deliver e d a 0 (report a (Graph.empty settings.allowCycles) []) := by
  have hbuild : Build.run d settings.maxWorkers settings.allowCycles settings.filter
      settings.roots = .ok { graph := Graph.empty settings.allowCycles } := by
    rw [Build.run_of_staffed (staffed_of_ready hready), if_pos hnone, hscanned]
    rfl
  have haudit : (Graph.empty settings.allowCycles).auditBy settings.maxWorkers =
      .ok (Graph.empty settings.allowCycles) := Graph.auditBy_of_enough (le_maxWorkers hready) _
  have hstatus : (if a.failOnCycles && false then cyclesStatus else 0) = 0 := by simp
  rw [scan, hbuild]
  dsimp only
  rw [haudit]
  exact congrArg (fun status => deliver e d a status _) hstatus

/-- A scan is run with a number of workers that a file of settings may ask for, and with such a
    depth too, unless the command line asks for a negative one: that is the only way for a depth
    below zero to get through. Then the scan reads no file, and if no root fails it ends with the
    report of an empty graph, whether it was asked to fail on cycles or not. -/
theorem limits_of_scan (formats : Formats) (e : Encoding) (d : Disk) (args : List String) :
    ((∃ a settings, Scans formats d args a settings) ∨
      (∃ stop, run formats e d args = .error stop) ∨
      ∃ complaint, run formats e d args = .ok (complain d complaint)) ∧
    ∀ a settings, Scans formats d args a settings →
      run formats e d args = scan e d a settings ∧
      (∀ n ∈ settings.maxWorkers, 1 ≤ n) ∧
      ((∀ n ∈ settings.filter.maxDepth, 0 ≤ n) ↔ ∀ n ∈ a.maxDepth, 0 ≤ n) ∧
      ∀ n ∈ a.maxDepth, n < 0 →
        Build.scanned d settings.filter settings.roots = [] ∧
        (Build.failures d settings.filter settings.roots = [] →
          run formats e d args =
            deliver e d a 0 (report a (Graph.empty settings.allowCycles) [])) := by
  refine ⟨scans_or_stops formats e d args, fun a settings hscans => ?_⟩
  obtain ⟨usual, hnormal, hdepth, -⟩ := Settings.limits_of_resolve hscans.resolved
  refine ⟨hscans.run_eq, le_maxWorkers hscans.unhindered, ?_, ?_⟩
  · rw [hdepth]
    cases a.maxDepth with
    | none => simpa using hnormal.maxDepth
    | some n => simp
  · intro n hn hnegative
    have hstop : settings.filter.stopsAt 0 = true := by
      rw [SearchFilter.stopsAt, hdepth, Option.mem_def.mp hn]
      simpa using hnegative
    have hscanned : Build.scanned d settings.filter settings.roots = [] :=
      Build.scanned_eq_nil hstop settings.roots
    refine ⟨hscanned, fun hnone => ?_⟩
    rw [hscans.run_eq, scan_of_scanned_eq_nil hscans.unhindered hnone hscanned]

/-- The settings of a scan of one root to some depth. -/
def toDepth (n : Int) : Settings where
  roots := ["src"]
  filter := { maxDepth := some n }

theorem limits_of_scan_pairOnDisk :
    run .standard .utf8 pairOnDisk ["src", "--max-depth", "-1", "--fail-on-cycles"] =
      .ok { output := "No dependency cycles found\n", disk := pairOnDisk } := by
  have hscans : Scans .standard pairOnDisk ["src", "--max-depth", "-1", "--fail-on-cycles"]
      { roots := ["src"], maxDepth := some (-1), failOnCycles := true } (toDepth (-1)) :=
    ⟨by decide, by decide +kernel, by decide⟩
  obtain ⟨-, -, -, hnegative⟩ := (limits_of_scan .standard .utf8 pairOnDisk _).2 _ _ hscans
  exact (hnegative (-1) rfl (by decide)).2 (by decide +kernel)

/-- A depth of minus one gets through on the command line, but not in a file of settings, and hides
    the cycle that a scan to depth zero fails on. -/
theorem scans_negativeDepth :
    Scans .standard pairOnDisk ["src", "--max-depth", "-1"]
      { roots := ["src"], maxDepth := some (-1) } (toDepth (-1)) ∧
    ¬ (∀ n ∈ (toDepth (-1)).filter.maxDepth, 0 ≤ n) ∧
    Settings.ofMapping [(some "max_depth", .integer (-1))] =
      .error (.problem (.notInteger "max_depth" 0)) ∧
    (run .standard .utf8 pairOnDisk ["src", "--max-depth", "-1", "--fail-on-cycles"]).map
      (·.status) = .ok 0 ∧
    (run .standard .utf8 pairOnDisk ["src", "--max-depth", "0", "--fail-on-cycles"]).map
      (·.status) = .ok 2 := by
  refine ⟨⟨by decide, by decide +kernel, by decide⟩, ?_, by decide, by decide +kernel,
    by decide +kernel⟩
  intro hlimits
  exact absurd (hlimits (-1) rfl) (by decide)

end CommandLine

end ImportCycles
