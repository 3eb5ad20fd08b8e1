namespace ImportCycles

namespace Settings

/-- A problem with a file of settings or with what it says. -/
inductive Problem where
  | unknownSettings (names : List String)
  | notNames (setting : String)
  | notInteger (setting : String) (minimum : Int)
  | notBoolean (setting : String)
  | unreadable (path reason : String)
  | unparsable (path reason : String)
  | unsupportedFormat (path : String)
  | notMapping (path : String)
  | listUnreadable (path reason : String)
  deriving Repr, DecidableEq

def Problem.message : Problem → String
  | .unknownSettings names => "unknown setting(s): " ++ ", ".intercalate names
  | .notNames setting => setting ++ " must be a string or a list of strings"
  | .notInteger setting minimum =>
    setting ++ " must be an integer of at least " ++ toString minimum
  | .notBoolean setting => setting ++ " must be a boolean"
  | .unreadable path reason => "cannot read " ++ path ++ ": " ++ reason
  | .unparsable path reason => "cannot parse " ++ path ++ ": " ++ reason
  | .unsupportedFormat path => "unsupported config format: " ++ path
  | .notMapping path => path ++ ": expected a mapping at top level"
  | .listUnreadable path reason => "cannot read source list " ++ path ++ ": " ++ reason

/-- A value that settings cannot be made from. -/
inductive Breach where
  /-- A setting whose name is no text. -/
  | nameNotText
  /-- A tool section that is no table, where its settings are asked for. -/
  | toolNotTable
  /-- A tool section in which nothing can be looked for. -/
  | toolNotSearchable
  /-- A number or a date that does not exist. -/
  | impossibleValue
  /-- A truth value in a word that is none. -/
  | unknownWord
  /-- A number without digits. -/
  | emptyNumber
  /-- A date in a text that is none. -/
  | malformedDate
  /-- A date where there is no text. -/
  | dateNotText
  /-- A character or a number beyond the range of machine numbers. -/
  | tooLarge
  /-- A path with a name that no file can have for its length. -/
  | nameTooLong
  /-- A path with a character that no path can have. -/
  | embeddedNul
  deriving Repr, DecidableEq

/-- Why there are no settings. A problem is told to the user, a breach ends the program. -/
inductive Failure where
  | problem (problem : Problem)
  | breach (breach : Breach)
  deriving Repr, DecidableEq

end Settings

end ImportCycles
