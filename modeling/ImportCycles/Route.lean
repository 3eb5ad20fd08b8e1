namespace ImportCycles

namespace Route

/-- Stands between two neighbouring names. -/
def arrow : String := " -> "

/-- The text of a path, such as `a -> b -> c`. -/
def join (units : List String) : String :=
  arrow.intercalate units

/-- Cut at each arrow, from the left. -/
def pieces : List Char → List (List Char)
  | [] => [[]]
  | ' ' :: '-' :: '>' :: ' ' :: rest => [] :: pieces rest
  | c :: rest =>
    match pieces rest with
    | [] => [[c]]
    | piece :: more => (c :: piece) :: more

/-- The names of a route, cut at every arrow, also where one is part of a name. The empty route has
    none. -/
def split (route : String) : List String :=
  if route.isEmpty then [] else (pieces route.toList).map String.ofList

/-- Why a route could not be trimmed. -/
inductive TrimError where
  | emptyArgument
  | unitNotFound (unit : String)
  deriving Repr, DecidableEq

def TrimError.message : TrimError → String
  | .emptyArgument => "route or offender is empty"
  | .unitNotFound unit => "not found in route: " ++ unit

/-- The part of a route that starts at the first occurrence of `offender` as a whole name. -/
def trimTo (route offender : String) : Except TrimError String :=
  if route.isEmpty || offender.isEmpty then
    .error .emptyArgument
  else
    match (split route).dropWhile (· != offender) with
    | [] => .error (.unitNotFound offender)
    | units => .ok (join units)

end Route

end ImportCycles
