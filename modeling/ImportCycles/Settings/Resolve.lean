import ImportCycles.CommandLine.Arguments
import ImportCycles.Settings.Load

namespace ImportCycles

namespace Settings

/-- The settings of a named file, or of the one found in the working directory, or the usual ones.
    An empty name names no file. -/
def base (formats : Formats) (d : Disk) (file : Option String) : Except Failure Settings :=
  match file.filter (!·.isEmpty) with
  | some file => load formats d (Path.ofString file)
  | none => do
    match ← find formats d (Path.absolute d.workingDirectory) with
    | some path => load formats d path
    | none => return {}

/-- The roots that a command line names, itself and in a list. -/
def namedRoots (d : Disk) (a : CommandLine.Arguments) : Except Failure (List String) :=
  match a.file.filter (!·.isEmpty) with
  | some file => (readSourceList d (Path.ofString file)).map (a.roots ++ ·)
  | none => .ok a.roots

/-- A search filter with what a command line says about it. Extensions take the place of others,
    excluded directories come on top of them. -/
def overrideFilter (f : SearchFilter) (a : CommandLine.Arguments) : SearchFilter where
  extensions := match a.includeExt with
    | some extensions =>
      if extensions.isEmpty then f.extensions else normalizeExtensions extensions
    | none => f.extensions
  excludedDirs := match a.excludeDir with
    | some names => sortDistinct (f.excludedDirs ++ names)
    | none => f.excludedDirs
  maxDepth := a.maxDepth.or f.maxDepth

/-- The settings of a file, with what the command line says on top. -/
def resolve (formats : Formats) (d : Disk) (a : CommandLine.Arguments) :
    Except Failure Settings := do
  let settings ← base formats d a.config
  let roots ← namedRoots d a
  return {
    roots := if roots.isEmpty then settings.roots else roots
    filter := overrideFilter settings.filter a
    allowCycles := settings.allowCycles && !a.strict
    maxWorkers := a.jobs.or settings.maxWorkers }

end Settings

end ImportCycles
