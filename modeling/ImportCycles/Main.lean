import ImportCycles.CommandLine.Run
import ImportCycles.Settings.Formats

namespace ImportCycles

namespace Main

/-- The lines of a stream. -/
partial def readLines (input : IO.FS.Stream) : IO (List String) := do
  let line ← input.getLine
  if line.isEmpty then
    return []
  let rest ← readLines input
  return String.ofList (line.toList.filter (· != '\n')) :: rest

/-- A disk with what a path leads to. A directory that is there already stays as it is. -/
def addPath (d : Disk) (path : String) : IO Disk := do
  let p := Path.ofString path
  let place := if p.root.isEmpty then d.workingDirectory ++ p.parts else p.parts
  try
    let bytes ← IO.FS.readBinFile path
    return d.put place (.file bytes.toList)
  catch _ =>
    return if (d.top.at? place).isSome then d else d.put place (.dir [])

/-- The disk that standard input lists, one path a line, as `find -L .` prints them. What cannot be
    read as a file counts as a directory. -/
def readDisk : IO Disk := do
  let here := (Path.ofString (toString (← IO.currentDir))).parts
  let empty : Disk := { workingDirectory := here }
  let paths ← readLines (← IO.getStdin)
  paths.foldlM addPath (empty.put here (.dir []))

/-- Put the file that was written, if there is one, on the real disk. -/
def writeBack (o : CommandLine.Outcome) : IO Unit := do
  match o.written with
  | none => return ()
  | some path =>
    match o.disk.read path with
    | .ok bytes => IO.FS.writeBinFile path.toString (ByteArray.mk bytes.toArray)
    | .error _ => return ()

def usage : String :=
  "usage: depcycle [options] [roots ...]"

def run (args : List String) : IO UInt32 := do
  match CommandLine.run .standard .utf8 (← readDisk) args with
  | .ok outcome =>
    writeBack outcome
    IO.print outcome.output
    outcome.complaint.forM fun complaint => IO.eprintln complaint
    return outcome.status.toUInt32
  | .error (.exit .help) =>
    IO.println usage
    return 0
  | .error (.exit .usage) =>
    IO.eprintln usage
    return 2
  | .error (.breach _) =>
    IO.eprintln "Error: a value that nothing can be made of"
    return 1
  | .error _ =>
    IO.eprintln "Error: the program came to an unexpected end"
    return 1

end Main

end ImportCycles

def main (args : List String) : IO UInt32 :=
  ImportCycles.Main.run args
