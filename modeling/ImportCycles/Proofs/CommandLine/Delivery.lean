import ImportCycles.Proofs.CommandLine.Status
import ImportCycles.Proofs.Disk.Fault
import ImportCycles.Proofs.Disk.Selection
import ImportCycles.Proofs.Report.Flowchart

namespace ImportCycles

namespace CommandLine

open Settings (Formats resolve)
open Report (assignIds endpoints)

variable {formats : Formats} {e : Encoding} {d : Disk} {a b : Arguments}
  {args others : List String} {settings : Settings} {status : Nat} {text : String} {stop : Stop}
  {outcome other : Outcome}

/-- What there is to tell: the report of an audited build, and the status that goes with it. -/
inductive Tells (formats : Formats) (d : Disk) (a : Arguments) : Nat → String → Prop where
  | report {settings : Settings} {r : Build.Result} {after : Graph}
      (hresolve : resolve formats d a = .ok settings) (hready : obstacle? settings = none)
      (hnone : Build.failures d settings.filter settings.roots = [])
      (hbuilt : Build.Built settings.allowCycles
        (Build.scanned d settings.filter settings.roots) r)
      (haudit : r.graph.Audited after) :
      Tells formats d a (if a.failOnCycles && r.tellsCycle after then cyclesStatus else 0)
        (report a after r.rejected ++ "\n")

/-- How a text is handed over: it is printed and the disk stays as it is, or nothing is printed and
    the text is written to the file that was asked for, and nowhere else. -/
def Delivered (e : Encoding) (d : Disk) (a : Arguments) (text : String) (outcome : Outcome) :
    Prop :=
  outcome.complaint = none ∧
  match a.output.filter (!·.isEmpty) with
  | none => outcome.output = text ∧ outcome.disk = d ∧ outcome.written = none
  | some file => outcome.output = "" ∧ outcome.written = some (Path.ofString file) ∧
      ∃ place bytes, e.bytes text = some bytes ∧
        outcome.disk.find (Path.ofString file) = .ok (place, .file bytes) ∧
        d.WrittenAt place bytes outcome.disk

/-- What ends the program while it hands over a text: a NUL in the place where the text is to go, or
    a text that its file, which can be opened, or the terminal has no form for. -/
inductive Crashes (e : Encoding) (d : Disk) (a : Arguments) (text : String) : Stop → Prop where
  | embeddedNul {file : String} (hout : a.output.filter (!·.isEmpty) = some file)
      (hnul : Char.ofNat 0 ∈ file.toList) : Crashes e d a text (.breach .embeddedNul)
  | unwritable {file : String} {emptied : Disk} (hout : a.output.filter (!·.isEmpty) = some file)
      (hopened : d.write (Path.ofString file) [] = .ok emptied) (hnone : e.bytes text = none) :
      Crashes e d a text (.unencodable (some (Path.ofString file)))
  | unprintable (hout : a.output.filter (!·.isEmpty) = none) (hnone : e.printable text = false) :
      Crashes e d a text (.unencodable none)

/-- An outcome with nothing but a complaint. -/
structure GivesUp (d : Disk) (outcome : Outcome) : Prop where
  status_eq : outcome.status = errorStatus
  output_eq : outcome.output = ""
  complains : outcome.complaint.isSome = true
  disk_eq : outcome.disk = d
  written_eq : outcome.written = none

/-- What the stages of a run rely on without checking: there are workers for the scan and for every
    audit, a file that a search finds can be read, no edge lacks a name, a walk that comes back to
    a unit finds it on its path, and each end of a link has an identifier. -/
structure Unhindered (d : Disk) (settings : Settings) : Prop where
  builds : ∀ stop, Build.run d settings.maxWorkers settings.allowCycles settings.filter
    settings.roots = .error stop → ∃ failures, stop = .failed failures
  audits : ∀ g : Graph, g.auditBy settings.maxWorkers = .ok g.audit
  readable : d.top.Proper → ∀ root paths,
    d.files settings.filter (Path.ofString root) = .ok paths →
      ∀ path ∈ paths, ∃ bytes, d.read path = .ok bytes
  named : ∀ edge ∈ (Build.scanned d settings.filter settings.roots).flatMap Build.edgesOf,
    ∀ g : Graph, (g.add edge.1 edge.2).1 ≠ some .emptyName
  onPath : ∀ mode edges known origin s,
    Walk.Reaches mode true edges (Walk.start edges known origin) s →
      ∀ unit ∈ s.seen, unit ∈ s.path
  identified : ∀ edges : List (String × String), ∀ edge ∈ edges,
    (assignIds (endpoints edges)).lookup edge.1 ≠ none ∧
      (assignIds (endpoints edges)).lookup edge.2 ≠ none

theorem givesUp_complain (d : Disk) (complaint : String) : GivesUp d (complain d complaint) :=
  ⟨rfl, rfl, rfl, rfl, rfl⟩

theorem Tells.status_cases (htells : Tells formats d a status text) : status = 0 ∨ status = 2 := by
  cases htells with
  | report =>
    split
    · exact .inr rfl
    · exact .inl rfl

/-- A report that is handed over arrives as a whole, or not at all. -/
theorem deliver_eq_ok_cases (hdeliver : deliver e d a status text = .ok outcome) :
    GivesUp d outcome ∨ outcome.status = status ∧ Delivered e d a (text ++ "\n") outcome := by
  unfold Delivered
  unfold deliver at hdeliver
  cases hout : a.output.filter (!·.isEmpty) with
  | none =>
    rw [hout] at hdeliver
    dsimp only [printReport] at hdeliver
    split at hdeliver
    · cases hdeliver
      exact .inr ⟨rfl, rfl, rfl, rfl, rfl⟩
    · cases hdeliver
  | some file =>
    rw [hout] at hdeliver
    dsimp only [writeReport] at hdeliver
    split at hdeliver
    · cases hdeliver
    · cases hdeliver
      exact .inl (givesUp_complain d _)
    · rename_i after hwrite
      cases hbytes : e.bytes (text ++ "\n") with
      | none =>
        rw [hbytes] at hdeliver
        cases hdeliver
      | some bytes =>
        rw [hbytes] at hdeliver hwrite
        cases hdeliver
        obtain ⟨place, hfind, hwritten⟩ := Disk.writtenAt_of_write hwrite
        exact .inr ⟨rfl, rfl, rfl, rfl, place, bytes, rfl, hfind, hwritten⟩

theorem crashes_of_deliver (hdeliver : deliver e d a status text = .error stop) :
    Crashes e d a (text ++ "\n") stop := by
  unfold deliver at hdeliver
  cases hout : a.output.filter (!·.isEmpty) with
  | none =>
    rw [hout] at hdeliver
    dsimp only [printReport] at hdeliver
    split at hdeliver
    · cases hdeliver
    · rename_i hprintable
      cases hdeliver
      exact .unprintable hout (Bool.not_eq_true _ ▸ hprintable)
  | some file =>
    rw [hout] at hdeliver
    dsimp only [writeReport] at hdeliver
    split at hdeliver
    · rename_i hwrite
      cases hdeliver
      have hnul := Path.hasNul_ofString_iff.mp (Disk.write_eq_embeddedNul_iff.mp hwrite)
      exact .embeddedNul hout hnul
    · cases hdeliver
    · rename_i emptied hwrite
      cases hbytes : e.bytes (text ++ "\n") with
      | some bytes =>
        rw [hbytes] at hdeliver
        cases hdeliver
      | none =>
        rw [hbytes] at hdeliver hwrite
        cases hdeliver
        exact .unwritable hout hwrite hbytes

theorem Crashes.deliver_eq (hcrashes : Crashes e d a (text ++ "\n") stop) (status : Nat) :
    deliver e d a status text = .error stop := by
  cases hcrashes with
  | @embeddedNul file hout hnul =>
    have hwrite : ∀ bytes, d.write (Path.ofString file) bytes = .error .embeddedNul :=
      fun _ => Disk.write_eq_embeddedNul_iff.mpr (Path.hasNul_ofString_iff.mpr hnul)
    simp [deliver, hout, writeReport, hwrite]
  | unwritable hout hopened hnone => simp [deliver, hout, writeReport, hnone, hopened]
  | unprintable hout hnone => simp [deliver, hout, printReport, hnone]

/-- The end of a run that has settings, however its threads take turns: it gives up, or a build and
    an audit are made, and their report is handed over. -/
theorem Ends.givesUp_or_deliver {last : Except Stop Outcome} (hends : Ends formats e d a last)
    (hsettled : ∀ breach, resolve formats d a ≠ .error (.breach breach)) :
    (∃ outcome, last = .ok outcome ∧ GivesUp d outcome) ∨
      ∃ status text, Tells formats d a status (text ++ "\n") ∧
        last = deliver e d a status text := by
  unfold Ends at hends
  cases hresolve : resolve formats d a with
  | error failure =>
    rw [hresolve] at hends
    cases failure with
    | breach breach => exact absurd hresolve (hsettled breach)
    | problem problem => exact .inl ⟨_, hends, givesUp_complain d _⟩
  | ok settings =>
    rw [hresolve] at hends
    dsimp only at hends
    split at hends
    · exact .inl ⟨_, hends, givesUp_complain d _⟩
    · rename_i hready
      rcases hends.failed_or_reported hready with
        ⟨-, hlast⟩ | ⟨r, after, hnone, hbuilt, haudit, hlast⟩
      · exact .inl ⟨_, hlast, givesUp_complain d _⟩
      · exact .inr ⟨_, _, .report hresolve hready hnone hbuilt haudit, hlast⟩

/-- What is told may be handed over. -/
theorem Tells.ends (htells : Tells formats d a status text) (e : Encoding) :
    ∃ report, text = report ++ "\n" ∧ Ends formats e d a (deliver e d a status report) := by
  cases htells with
  | @report settings r after hresolve hready hnone hbuilt haudit =>
    refine ⟨_, rfl, ?_⟩
    unfold Ends
    rw [hresolve]
    dsimp only
    rw [hready]
    refine .reported (staffed_of_ready hready) hnone hbuilt ?_ haudit
    rw [Graph.auditBy_of_enough (le_maxWorkers hready)]
    exact nofun

/-- What there is to tell does not depend on where it goes. -/
theorem tells_congr (hsame : { a with output := b.output } = b) (status : Nat) (text : String) :
    Tells formats d b status text ↔ Tells formats d a status text := by
  rw [← hsame]
  refine ⟨fun htells => ?_, fun htells => ?_⟩
  · cases htells with
    | report hresolve hready hnone hbuilt haudit =>
      exact .report hresolve hready hnone hbuilt haudit
  · cases htells with
    | report hresolve hready hnone hbuilt haudit =>
      exact .report (a := { a with output := b.output }) hresolve hready hnone hbuilt haudit

/-- A run that does not give up ends by handing over the report of its own build and audit. -/
theorem run_eq_deliver (hargs : parse args = .ok a) (hrun : run formats e d args = .ok outcome)
    (hstatus : outcome.status ≠ errorStatus) :
    ∃ settings result, resolve formats d a = .ok settings ∧
      Build.run d settings.maxWorkers settings.allowCycles settings.filter settings.roots =
        .ok result ∧
      deliver e d a
        (if a.failOnCycles && result.tellsCycle result.graph.audit then cyclesStatus else 0)
        (report a result.graph.audit result.rejected) = .ok outcome := by
  unfold run at hrun
  rw [hargs] at hrun
  dsimp only at hrun
  split at hrun
  · cases hrun
  · cases hrun
    exact absurd rfl hstatus
  · rename_i settings hresolve
    split at hrun
    · cases hrun
      exact absurd rfl hstatus
    · unfold scan at hrun
      split at hrun
      · cases hrun
        exact absurd rfl hstatus
      · cases hrun
      · cases hrun
      · rename_i result hbuild
        split at hrun
        · cases hrun
        · rename_i after haudit
          obtain rfl := Graph.eq_audit_of_auditBy haudit
          exact ⟨settings, result, hresolve, hbuild, hrun⟩

/-- Two runs that differ in the place of the report alone, and do not give up, hand over one and the
    same text. -/
theorem run_same_text (hargs : parse args = .ok a) (hothers : parse others = .ok b)
    (hsame : { a with output := b.output } = b) (hrun : run formats e d args = .ok outcome)
    (hother : run formats e d others = .ok other) (hstatus : outcome.status ≠ errorStatus)
    (hstatusToo : other.status ≠ errorStatus) :
    outcome.status = other.status ∧
      ∃ text, Delivered e d a text outcome ∧ Delivered e d b text other := by
  obtain ⟨settings, result, hresolve, hbuild, hdeliver⟩ := run_eq_deliver hargs hrun hstatus
  obtain ⟨settings', result', hresolve', hbuild', hdeliver'⟩ :=
    run_eq_deliver hothers hother hstatusToo
  have hnowhere : resolve formats d b = resolve formats d a := by rw [← hsame]; rfl
  obtain rfl : settings' = settings := by
    rw [hnowhere, hresolve] at hresolve'
    exact (Except.ok.inj hresolve').symm
  obtain rfl : result' = result := by
    rw [hbuild] at hbuild'
    exact (Except.ok.inj hbuild').symm
  obtain ⟨hequal, hdelivered⟩ :=
    (deliver_eq_ok_cases hdeliver).resolve_left fun hgives => hstatus hgives.status_eq
  obtain ⟨hequal', hdelivered'⟩ :=
    (deliver_eq_ok_cases hdeliver').resolve_left fun hgives => hstatusToo hgives.status_eq
  have hfail : b.failOnCycles = a.failOnCycles := by rw [← hsame]
  have hreport : report b = report a := by rw [← hsame]; rfl
  rw [hfail, ← hequal] at hequal'
  rw [hreport] at hdelivered'
  exact ⟨hequal'.symm, _, hdelivered, hdelivered'⟩

theorem lookup_endpoints {edges : List (String × String)} {name : String}
    (hname : ∃ edge ∈ edges, name = edge.1 ∨ name = edge.2) :
    (assignIds (endpoints edges)).lookup name ≠ none := by
  rw [Report.lookup_assignIds (Report.mem_endpoints.mpr hname)]
  exact Option.some_ne_none _

theorem unhindered_of_ready (d : Disk) (hready : obstacle? settings = none) :
    Unhindered d settings := by
  refine ⟨?_, ?_, ?_, ?_, ?_, ?_⟩
  · intro stop hstop
    exact ⟨_, ((Build.run_eq_error_iff (staffed_of_ready hready)).mp hstop).2⟩
  · exact Graph.auditBy_of_enough (le_maxWorkers hready)
  · intro hproper root paths hfiles path hpath
    exact Disk.read_of_mem_files hproper hfiles hpath
  · intro edge hedge g
    obtain ⟨hfirst, hsecond⟩ := Build.ends_named (.refl _)
      (fun _ => Build.ne_empty_of_mem_scanned) edge hedge
    exact g.add_ne_emptyName hfirst hsecond
  · intro mode edges known origin s hreach unit hseen
    rwa [← (hreach.invariant (Walk.invariant_start edges known origin)).seen_eq]
  · intro edges edge hedge
    exact ⟨lookup_endpoints ⟨edge, hedge, .inl rfl⟩, lookup_endpoints ⟨edge, hedge, .inr rfl⟩⟩

/-- Once it has settings the program gives up and changes nothing, or it reports as a whole: it
    prints the report or writes it to the file that was asked for, the same text in both cases. It
    ends in no other way but one, that the report cannot be handed over, for a NUL in the place
    where it is to go or for want of an encoding; and it does end so whenever there is such a
    report. No stage before meets what it does not expect. -/
theorem reports_gives_up_or_crashes (formats : Formats) (e : Encoding) (d : Disk)
    (hargs : parse args = .ok a)
    (hsettled : ∀ breach, resolve formats d a ≠ .error (.breach breach)) :
    Ends formats e d a (run formats e d args) ∧
    (∀ outcome, Ends formats e d a (.ok outcome) →
      outcome.status = 1 ∧ GivesUp d outcome ∨
      (outcome.status = 0 ∨ outcome.status = 2) ∧
        ∃ text, Tells formats d a outcome.status text ∧ Delivered e d a text outcome) ∧
    (∀ stop, Ends formats e d a (.error stop) ↔
      ∃ status text, Tells formats d a status text ∧ Crashes e d a text stop) ∧
    (∀ others b, parse others = .ok b → { a with output := b.output } = b →
      (∀ status text, Tells formats d b status text ↔ Tells formats d a status text) ∧
      ∀ outcome other, run formats e d args = .ok outcome → run formats e d others = .ok other →
        outcome.status ≠ 1 → other.status ≠ 1 →
        outcome.status = other.status ∧
          ∃ text, Delivered e d a text outcome ∧ Delivered e d b text other) ∧
    ∀ settings, resolve formats d a = .ok settings → obstacle? settings = none →
      Unhindered d settings := by
  refine ⟨ends_run hargs, ?_, ?_, ?_, fun settings _ hready => unhindered_of_ready d hready⟩
  · intro outcome hends
    rcases hends.givesUp_or_deliver hsettled with ⟨_, hlast, hgives⟩ | ⟨status, text, htells, hlast⟩
    · cases hlast
      exact .inl ⟨hgives.status_eq, hgives⟩
    · rcases deliver_eq_ok_cases hlast.symm with hgives | ⟨rfl, hdelivered⟩
      · exact .inl ⟨hgives.status_eq, hgives⟩
      · exact .inr ⟨htells.status_cases, _, htells, hdelivered⟩
  · intro stop
    constructor
    · intro hends
      rcases hends.givesUp_or_deliver hsettled with ⟨_, hlast, -⟩ | ⟨status, text, htells, hlast⟩
      · cases hlast
      · exact ⟨status, _, htells, crashes_of_deliver hlast.symm⟩
    · rintro ⟨status, text, htells, hcrashes⟩
      obtain ⟨report, rfl, hends⟩ := htells.ends e
      rwa [hcrashes.deliver_eq] at hends
  · intro others b hothers hsame
    refine ⟨tells_congr hsame, ?_⟩
    intro outcome other hrun hother hstatus hstatusToo
    exact run_same_text hargs hothers hsame hrun hother hstatus hstatusToo

/-- The cycle of two files is printed, or written to a new file, in the same words. -/
theorem reports_gives_up_or_crashes_pairOnDisk :
    ∃ outcome, run .standard .utf8 pairOnDisk ["src", "-o", "report.txt"] = .ok outcome ∧
      outcome.status = 0 ∧ outcome.output = "" ∧
      ∃ place, outcome.disk.find (Path.ofString "report.txt") = .ok (place, .file (Utf8.encode
        "1 dependency cycle(s) detected:\n  p.B -> p.A -> p.B\n")) := by
  have hargs : parse ["src", "-o", "report.txt"] =
      .ok { roots := ["src"], output := some "report.txt" } := by decide
  have hothers : parse ["src"] = .ok { roots := ["src"] } := by decide
  have hresolved : resolve .standard pairOnDisk { roots := ["src"], output := some "report.txt" } =
      .ok { roots := ["src"] } := rfl
  have hwritten : (run .standard .utf8 pairOnDisk ["src", "-o", "report.txt"]).map (·.status) =
      .ok 0 := by
    decide +kernel
  have hprinted : (run .standard .utf8 pairOnDisk ["src"]).map
      (fun outcome => (outcome.status, outcome.output)) =
      .ok (0, "1 dependency cycle(s) detected:\n  p.B -> p.A -> p.B\n") := by
    decide +kernel
  obtain ⟨-, -, -, hsame, -⟩ := reports_gives_up_or_crashes .standard .utf8 pairOnDisk hargs
    (by simp [hresolved])
  cases hrun : run .standard .utf8 pairOnDisk ["src", "-o", "report.txt"] with
  | error stop => simp [hrun, Except.map] at hwritten
  | ok outcome =>
    cases hplain : run .standard .utf8 pairOnDisk ["src"] with
    | error stop => simp [hplain, Except.map] at hprinted
    | ok other =>
      have hzero : outcome.status = 0 := by simpa [hrun, Except.map] using hwritten
      obtain ⟨hzeroToo, htext⟩ : other.status = 0 ∧ other.output = _ := by
        simpa [hplain, Except.map] using hprinted
      obtain ⟨-, text, ⟨-, hquiet, -, place, bytes, hbytes, hfind, -⟩, ⟨-, rfl, -⟩⟩ :=
        (hsame _ _ hothers rfl).2 outcome other hrun hplain (by simp [hzero]) (by simp [hzeroToo])
      obtain rfl : Utf8.encode other.output = bytes := Option.some.inj hbytes
      exact ⟨outcome, rfl, hzero, hquiet, place, htext ▸ hfind⟩

/-- A root without files. -/
def emptyRoot : Disk where
  top := .dir [("src", .dir [])]

/-- A root with a file whose name is no text. A character of private use stands in it for what only
    the system understands. -/
def strayName : Disk where
  top := .dir [("src", .dir [
    ("\ue0ff.java", .file ("import p.A;".toList.map (·.toNat.toUInt8)))])]

/-- No text with that character has a form outside. -/
def Encoding.withoutStray : Encoding where
  bytes text := if '\ue0ff' ∈ text.toList then none else some (Utf8.encode text)
  printable text := '\ue0ff' ∉ text.toList

/-- A place with a NUL in its text, and a report of a file whose name is no text, end the program
    without an outcome: it expects only what the system tells about a place that it cannot write
    to. -/
theorem run_undeliverable :
    parse ["src", "-o", "a\x00b"] = .ok { roots := ["src"], output := some "a\x00b" } ∧
      resolve .standard emptyRoot { roots := ["src"], output := some "a\x00b" } =
        .ok { roots := ["src"] } ∧
      run .standard .utf8 emptyRoot ["src", "-o", "a\x00b"] = .error (.breach .embeddedNul) ∧
    parse ["src", "--format", "mermaid", "--full-graph", "-o", "out"] =
        .ok { roots := ["src"], format := .flowchart, fullGraph := true, output := some "out" } ∧
      resolve .standard strayName
          { roots := ["src"], format := .flowchart, fullGraph := true, output := some "out" } =
        .ok { roots := ["src"] } ∧
      run .standard .withoutStray strayName
          ["src", "--format", "mermaid", "--full-graph", "-o", "out"] =
        .error (.unencodable (some (Path.ofString "out"))) := by
  refine ⟨by decide, rfl, rfl, by decide, rfl, rfl⟩

end CommandLine

end ImportCycles
