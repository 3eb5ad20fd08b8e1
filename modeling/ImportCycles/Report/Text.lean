import ImportCycles.Sorted

namespace ImportCycles

namespace Report

def indented (traces : List String) : List String :=
  traces.map ("  " ++ ·)

def cycleLines (cycles : List String) : List String :=
  if cycles.isEmpty then
    ["No dependency cycles found"]
  else
    (toString cycles.length ++ " dependency cycle(s) detected:") :: indented (sortNames cycles)

/-- The section on the refused edges, where each route counts once. -/
def rejectedLines (rejected : List String) : List String :=
  if rejected.isEmpty then
    []
  else
    let refused := sortDistinct rejected
    "" :: (toString refused.length ++ " edge(s) rejected because they would close a cycle:") ::
      indented refused

/-- The report as text, without a final line break. -/
def text (cycles rejected : List String) : String :=
  "\n".intercalate (cycleLines cycles ++ rejectedLines rejected)

end Report

end ImportCycles
