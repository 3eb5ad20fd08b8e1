import ImportCycles.Disk.Basic
import ImportCycles.Settings.Problem
import ImportCycles.Text.Blank
import ImportCycles.Text.Utf8

namespace ImportCycles

namespace Disk

/-- Why a text cannot be read. -/
inductive TextFault where
  | fault (reason : Fault)
  | illFormed (flaw : Utf8.Flaw)
  deriving Repr, DecidableEq

def TextFault.message (fault : TextFault) (p : Path) : String :=
  match fault with
  | .fault reason => reason.message p
  | .illFormed flaw => flaw.message

/-- The text of a file, with line feeds for all line breaks. The file must be well-formed. -/
def readText (d : Disk) (p : Path) : Except TextFault (List Char) :=
  match d.read p with
  | .error reason => .error (.fault reason)
  | .ok bytes =>
    match Utf8.decode bytes with
    | .error flaw => .error (.illFormed flaw)
    | .ok text => .ok (Text.unifyBreaks text)

end Disk

namespace Settings

/-- The text of a file, or a problem with the reason why there is none. A path that no file can have
    is a breach. -/
def readTextOr (problem : (reason : String) → Problem) (d : Disk) (p : Path) :
    Except Failure (List Char) :=
  match d.readText p with
  | .ok text => .ok text
  | .error (.fault .embeddedNul) => .error (.breach .embeddedNul)
  | .error fault => .error (.problem (problem (fault.message p)))

/-- The roots that a text lists, one a line. Blank lines and lines that start with a number sign do
    not count. -/
def rootsIn (text : List Char) : List String :=
  (((Text.lines text).map Text.trim).filter fun line =>
    !line.isEmpty && line.head? != some '#').map String.ofList

/-- The roots that a file lists. -/
def readSourceList (d : Disk) (p : Path) : Except Failure (List String) :=
  (readTextOr (.listUnreadable p.toString) d p).map rootsIn

end Settings

end ImportCycles
