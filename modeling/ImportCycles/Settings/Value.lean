namespace ImportCycles

namespace Settings

/-- A value in a file of settings. Fractions, dates, tables and the like are no value of a setting.
    -/
inductive Value where
  | null
  | boolean (value : Bool)
  | integer (value : Int)
  | text (value : String)
  | list (items : List Value)
  | other
  deriving Repr

/-- What a file of settings holds. A name that is no text is missing. -/
inductive Document where
  | empty
  | mapping (entries : List (Option String × Value))
  | other
  deriving Repr

def Value.text? : Value → Option String
  | .text value => some value
  | _ => none

/-- The names in a value: a text is one name, a list of texts is many. -/
def Value.names? : Value → Option (List String)
  | .text value => some [value]
  | .list items => items.mapM Value.text?
  | _ => none

end Settings

end ImportCycles
