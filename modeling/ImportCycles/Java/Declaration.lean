import ImportCycles.Text.Blank

namespace ImportCycles

namespace Java

inductive Keyword where
  | ofImport
  | ofPackage
  deriving Repr, DecidableEq

def Keyword.text : Keyword → String
  | .ofImport => "import"
  | .ofPackage => "package"

/-- The shortest declaration has a blank, one letter and a semicolon after the keyword. -/
def Keyword.minLength (k : Keyword) : Nat :=
  k.text.length + 3

/-- Why a line is not a declaration. -/
inductive Cause where
  | noKeyword
  | tooShort
  | noBlank
  | noName
  deriving Repr, DecidableEq

/-- A line, without blanks around it, that is not the declaration looked for. -/
structure Malformed where
  keyword : Keyword
  cause : Cause
  line : String
  deriving Repr, DecidableEq

def Malformed.message (m : Malformed) : String :=
  let problem := match m.cause with
    | .noKeyword => m.keyword.text ++ " statement not found"
    | .tooShort => "line too short to be valid"
    | .noBlank => "missing space after keyword"
    | .noName => "empty " ++ m.keyword.text
  problem ++ ": " ++ m.line

/-- What a trimmed line declares: the text after the keyword and one blank, without the semicolons
    at the end and the blanks around it. -/
def declared (k : Keyword) (line : List Char) : Except Cause (List Char) :=
  if !Text.startsWith line k.text.toList then
    .error .noKeyword
  else if line.length < k.minLength then
    .error .tooShort
  else
    match line.drop k.text.length with
    | [] => .error .tooShort
    | c :: rest =>
      if Text.isBlank c then .ok (Text.trim (Text.trimEndBy (· == ';') rest))
      else .error .noBlank

/-- A name without the modifier of a static import. -/
def dropStatic (name : List Char) : List Char :=
  if Text.startsWith name "static ".toList then Text.trim (name.drop 7) else name

/-- Read a declaration; `finish` has the last word on the name. -/
def parseWith (k : Keyword) (finish : List Char → List Char) (line : String) :
    Except Malformed String :=
  let trimmed := Text.trim line.toList
  let fail := fun cause => Malformed.mk k cause (String.ofList trimmed)
  match declared k trimmed with
  | .error cause => .error (fail cause)
  | .ok name =>
    match finish name with
    | [] => .error (fail .noName)
    | name => .ok (String.ofList name)

/-- The name that an import declaration imports, without the static modifier. -/
def parseImport (line : String) : Except Malformed String :=
  parseWith .ofImport dropStatic line

/-- The name that a package declaration declares. -/
def parsePackage (line : String) : Except Malformed String :=
  parseWith .ofPackage id line

/-- The words that a type declaration can start with. -/
def typeKeywords : List String :=
  ["public", "class", "abstract", "final", "interface", "enum"]

def startsType (line : String) : Bool :=
  typeKeywords.any fun word => Text.startsWith line.toList word.toList

/-- Whether a line starts with a keyword and a space. -/
def startsDeclaration (k : Keyword) (line : String) : Bool :=
  Text.startsWith line.toList (k.text.toList ++ [' '])

/-- The names imported before the first type declaration. Malformed imports are passed over. -/
def imports : List String → List String
  | [] => []
  | line :: rest =>
    if startsDeclaration .ofImport line then
      match parseImport line with
      | .ok name => name :: imports rest
      | .error _ => imports rest
    else if startsType line then
      []
    else
      imports rest

/-- The package declared before the first type declaration, empty if there is none or the first
    declaration is malformed. -/
def packageName : List String → String
  | [] => ""
  | line :: rest =>
    if startsDeclaration .ofPackage line then
      match parsePackage line with
      | .ok name => name
      | .error _ => ""
    else if startsType line then
      ""
    else
      packageName rest

end Java

end ImportCycles
