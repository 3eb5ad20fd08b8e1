import ImportCycles.Build
import ImportCycles.CommandLine.Parse
import ImportCycles.Disk.Change
import ImportCycles.Graph.Audit
import ImportCycles.Report.Document
import ImportCycles.Report.Flowchart
import ImportCycles.Report.Text
import ImportCycles.Settings.Resolve

namespace ImportCycles

namespace CommandLine

/-- What the program leaves behind: its status, what it prints, a complaint of one line if there is
    one, the disk, and the path of the file that was written if there is one. -/
structure Outcome where
  status : Nat := 0
  output : String := ""
  complaint : Option String := none
  disk : Disk
  written : Option Path := none
  deriving Repr

/-- What ends the program without an outcome. -/
inductive Stop where
  | exit (exit : Exit)
  | breach (breach : Settings.Breach)
  /-- There is work and no worker for it. -/
  | noWorkers
  /-- An edge lacks a name. -/
  | emptyName
  /-- The report has no encoding. If it was to be written, its file has been opened by then and is
      left empty. -/
  | unencodable (emptied : Option Path)
  deriving Repr, DecidableEq

/-- How texts leave the program. A text may have no form that a file or the terminal can take: a
    file name that is no text comes from the system with parts that only the system understands, and
    such a name may stand in a report. -/
structure Encoding where
  bytes : String → Option (List UInt8)
  printable : String → Bool

/-- Every text can be written, and printed. -/
def Encoding.utf8 : Encoding where
  bytes text := some (Utf8.encode text)
  printable _ := true

def errorStatus : Nat := 1

/-- The status of a program that was asked to fail on cycles and found some. -/
def cyclesStatus : Nat := 2

/-- The outcome of a program that stops with a complaint. -/
def complain (d : Disk) (complaint : String) : Outcome :=
  { status := errorStatus, complaint := some complaint, disk := d }

/-- What keeps settings from being run, in words. -/
def obstacle? (settings : Settings) : Option String :=
  if settings.roots.isEmpty then some "Error: specify one or more source roots, or a file with -f"
  else if settings.maxWorkers.any (· < 1) then some "Error: --jobs must be at least 1"
  else none

/-- The report of an audited graph in the form that is asked for. A flowchart also shows the cycles
    that were refused. -/
def report (a : Arguments) (graph : Graph) (rejected : List String) : String :=
  match a.format with
  | .text => Report.text graph.cycles rejected
  | .json => Report.json graph graph.cycles rejected (some 2) true
  | .flowchart =>
    Report.flowchart graph (sortDistinct (graph.cycles ++ rejected)) a.orientation (!a.fullGraph)

/-- Print a report. -/
def printReport (e : Encoding) (d : Disk) (status : Nat) (text : String) : Except Stop Outcome :=
  if e.printable text then .ok { status, output := text, disk := d }
  else .error (.unencodable none)

/-- Write a report to a file. The file is opened first, which leaves it empty. -/
def writeReport (e : Encoding) (d : Disk) (path : Path) (status : Nat) (text : String) :
    Except Stop Outcome :=
  match d.write path ((e.bytes text).getD []) with
  | .error .embeddedNul => .error (.breach .embeddedNul)
  | .error fault => .ok (complain d ("Error writing output: " ++ fault.message path))
  | .ok disk =>
    if (e.bytes text).isSome then .ok { status, disk, written := some path }
    else .error (.unencodable (some path))

/-- Hand over a report: write it to a file, or print it. -/
def deliver (e : Encoding) (d : Disk) (a : Arguments) (status : Nat) (report : String) :
    Except Stop Outcome :=
  match a.output.filter (!·.isEmpty) with
  | none => printReport e d status (report ++ "\n")
  | some file => writeReport e d (Path.ofString file) status (report ++ "\n")

/-- Scan with settings, and report. -/
def scan (e : Encoding) (d : Disk) (a : Arguments) (settings : Settings) : Except Stop Outcome :=
  match Build.run d settings.maxWorkers settings.allowCycles settings.filter settings.roots with
  | .error (.failed failures) =>
    .ok (complain d ("Error building dependencies: " ++ Build.failureMessage failures))
  | .error .noWorkers => .error .noWorkers
  | .error .emptyName => .error .emptyName
  | .ok result =>
    match result.graph.auditBy settings.maxWorkers with
    | .error .noWorkers => .error .noWorkers
    | .ok graph =>
      let foundCycles := !graph.allClear || !result.rejected.isEmpty
      let status := if a.failOnCycles && foundCycles then cyclesStatus else 0
      deliver e d a status (report a graph result.rejected)

/-- The whole program on a disk: settings, build, audit, report. What the user can mend is told in
    one line and ends the program with status one. -/
def run (formats : Settings.Formats) (e : Encoding) (d : Disk) (args : List String) :
    Except Stop Outcome :=
  match parse args with
  | .error exit => .error (.exit exit)
  | .ok a =>
    match Settings.resolve formats d a with
    | .error (.breach breach) => .error (.breach breach)
    | .error (.problem problem) => .ok (complain d ("Error: " ++ problem.message))
    | .ok settings =>
      match obstacle? settings with
      | some obstacle => .ok (complain d obstacle)
      | none => scan e d a settings

end CommandLine

end ImportCycles
