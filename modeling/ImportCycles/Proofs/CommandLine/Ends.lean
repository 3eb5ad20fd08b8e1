import ImportCycles.CommandLine.Run
import ImportCycles.Proofs.Audit.Serial
import ImportCycles.Proofs.Build.Verdict

namespace ImportCycles

theorem Graph.auditBy_of_enough {workers : Option Int} (henough : ∀ n ∈ workers, 1 ≤ n)
    (g : Graph) : g.auditBy workers = .ok g.audit := by
  have hsome : workers.any (· < 1) = false := by
    simpa [Option.any_eq_false] using henough
  rw [auditBy, hsome, Bool.and_false]
  rfl

theorem Graph.eq_audit_of_auditBy {g after : Graph} {workers : Option Int}
    (haudit : g.auditBy workers = .ok after) : after = g.audit := by
  rw [auditBy] at haudit
  split at haudit
  · cases haudit
  · exact (Except.ok.inj haudit).symm

namespace CommandLine

open Settings (Formats resolve)

variable {formats : Formats} {e : Encoding} {d : Disk} {a : Arguments} {settings : Settings}
  {last : Except Stop Outcome} {args : List String}

/-- The ends that a scan can come to when its roots are scanned at the same time, and then the steps
    of its audit are taken in any order. -/
inductive ScanEnds (e : Encoding) (d : Disk) (a : Arguments) (settings : Settings) :
    Except Stop Outcome → Prop
  | unstaffed (hworkers : ¬ Build.Staffed settings.maxWorkers settings.roots) :
      ScanEnds e d a settings (.error .noWorkers)
  | emptyName {order : List (String × String)}
      (hworkers : Build.Staffed settings.maxWorkers settings.roots)
      (horder : order.Perm
        ((Build.scanned d settings.filter settings.roots).flatMap Build.edgesOf))
      (hadds : (Build.start settings.allowCycles
        (Build.scanned d settings.filter settings.roots)).addEdges order = .error .emptyName) :
      ScanEnds e d a settings (.error .emptyName)
  | failed (hworkers : Build.Staffed settings.maxWorkers settings.roots)
      (hfails : Build.failures d settings.filter settings.roots ≠ []) :
      ScanEnds e d a settings <| .ok <| complain d <| "Error building dependencies: " ++
        Build.failureMessage (Build.failures d settings.filter settings.roots)
  | unaudited {r : Build.Result} (hworkers : Build.Staffed settings.maxWorkers settings.roots)
      (hnone : Build.failures d settings.filter settings.roots = [])
      (hbuilt : Build.Built settings.allowCycles
        (Build.scanned d settings.filter settings.roots) r)
      (haudit : r.graph.auditBy settings.maxWorkers = .error .noWorkers) :
      ScanEnds e d a settings (.error .noWorkers)
  | reported {r : Build.Result} {after : Graph}
      (hworkers : Build.Staffed settings.maxWorkers settings.roots)
      (hnone : Build.failures d settings.filter settings.roots = [])
      (hbuilt : Build.Built settings.allowCycles
        (Build.scanned d settings.filter settings.roots) r)
      (hbegins : r.graph.auditBy settings.maxWorkers ≠ .error .noWorkers)
      (haudit : r.graph.Audited after) :
      ScanEnds e d a settings <|
        deliver e d a (if a.failOnCycles && r.tellsCycle after then cyclesStatus else 0)
          (report a after r.rejected)

/-- The ends that the program can come to with some arguments, its threads taking turns at will. -/
def Ends (formats : Formats) (e : Encoding) (d : Disk) (a : Arguments)
    (last : Except Stop Outcome) : Prop :=
  match resolve formats d a with
  | .error (.breach breach) => last = .error (.breach breach)
  | .error (.problem problem) => last = .ok (complain d ("Error: " ++ problem.message))
  | .ok settings =>
    match obstacle? settings with
    | some obstacle => last = .ok (complain d obstacle)
    | none => ScanEnds e d a settings last

theorem scanEnds_scan (e : Encoding) (d : Disk) (a : Arguments) (settings : Settings) :
    ScanEnds e d a settings (scan e d a settings) := by
  unfold scan
  by_cases hworkers : Build.Staffed settings.maxWorkers settings.roots
  · rw [Build.run_of_staffed hworkers]
    by_cases hnone : Build.failures d settings.filter settings.roots = []
    · obtain ⟨r, hadds, hbuilt⟩ :=
        Build.exists_built d settings.allowCycles settings.filter settings.roots
      rw [if_pos hnone, hadds]
      cases haudit : r.graph.auditBy settings.maxWorkers with
      | error fault =>
        cases fault
        simpa [haudit] using ScanEnds.unaudited (e := e) (a := a) hworkers hnone hbuilt haudit
      | ok after =>
        obtain rfl := Graph.eq_audit_of_auditBy haudit
        simp only [haudit]
        exact .reported hworkers hnone hbuilt (by simp [haudit])
          (Graph.audited_auditInOrder _ (.refl _))
    · rw [if_neg hnone]
      exact .failed hworkers hnone
  · rw [Build.run_of_not_staffed hworkers]
    exact .unstaffed hworkers

/-- The program that takes its roots and its audit's tasks one after another comes to one of the
    ends. -/
theorem ends_run (hargs : parse args = .ok a) : Ends formats e d a (run formats e d args) := by
  unfold run Ends
  rw [hargs]
  dsimp only
  cases resolve formats d a with
  | error failure =>
    cases failure with
    | problem problem => rfl
    | breach breach => rfl
  | ok settings =>
    dsimp only
    cases obstacle? settings with
    | some obstacle => rfl
    | none => exact scanEnds_scan e d a settings

/-- Settings that a scan is run with give it workers. -/
theorem le_maxWorkers (hready : obstacle? settings = none) : ∀ n ∈ settings.maxWorkers, 1 ≤ n := by
  intro n hn
  unfold obstacle? at hready
  split_ifs at hready with hroots hjobs
  rw [Option.mem_def.mp hn, Option.any_some, decide_eq_true_eq] at hjobs
  omega

theorem staffed_of_ready (hready : obstacle? settings = none) :
    Build.Staffed settings.maxWorkers settings.roots := by
  refine .inr fun count hcount => ?_
  have hone := le_maxWorkers hready count hcount
  omega

/-- A scan that is run fails on its roots or reports: there are workers, and every edge of the
    scanned files is named. -/
theorem ScanEnds.failed_or_reported (hends : ScanEnds e d a settings last)
    (hready : obstacle? settings = none) :
    (Build.failures d settings.filter settings.roots ≠ [] ∧
      last = .ok (complain d ("Error building dependencies: " ++
        Build.failureMessage (Build.failures d settings.filter settings.roots)))) ∨
    ∃ r after, Build.failures d settings.filter settings.roots = [] ∧
      Build.Built settings.allowCycles (Build.scanned d settings.filter settings.roots) r ∧
      r.graph.Audited after ∧
      last = deliver e d a (if a.failOnCycles && r.tellsCycle after then cyclesStatus else 0)
        (report a after r.rejected) := by
  cases hends with
  | unstaffed hworkers => exact absurd (staffed_of_ready hready) hworkers
  | emptyName _ horder hadds =>
    have hnamed := Build.ends_named horder fun _ => Build.ne_empty_of_mem_scanned
    obtain ⟨built, hbuilt, -⟩ := (Build.covers_empty settings.allowCycles _).addEdges hnamed
    cases hbuilt.symm.trans hadds
  | failed _ hfails => exact .inl ⟨hfails, rfl⟩
  | unaudited _ _ _ haudit =>
    cases (Graph.auditBy_of_enough (le_maxWorkers hready) _).symm.trans haudit
  | reported _ hnone hbuilt _ haudit => exact .inr ⟨_, _, hnone, hbuilt, haudit, rfl⟩

end CommandLine

end ImportCycles
