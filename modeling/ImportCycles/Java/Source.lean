import ImportCycles.Disk.Path
import ImportCycles.Java.Declaration
import ImportCycles.Text.Utf8

namespace ImportCycles

namespace Java

/-- A scanned file: the name of its unit, and the names that it imports. -/
structure Source where
  name : String
  references : List String
  deriving Repr, DecidableEq

/-- The name of the class that a file declares, qualified by its package. -/
def unitName (packageName : String) (path : Path) : String :=
  let className := String.ofList (path.name.toList.takeWhile (· != '.'))
  if packageName.isEmpty then className else packageName ++ "." ++ className

/-- The text of a source file. Ill-formed bytes become replacement characters, and all line breaks
    of old systems become line feeds. -/
def sourceText (bytes : List UInt8) : List Char :=
  Text.unifyBreaks (Utf8.decodeLossy bytes)

/-- The name and the references of a file, from its lines. -/
def scan (path : Path) (bytes : List UInt8) : Source :=
  let lines := (Text.lines (sourceText bytes)).map String.ofList
  { name := unitName (packageName lines) path, references := imports lines }

/-- The name of the class a file declares, where only line feeds end a line. -/
def qualifiedName (path : Path) (bytes : List UInt8) : String :=
  unitName (packageName ((Text.feedLines (sourceText bytes)).map String.ofList)) path

end Java

end ImportCycles
