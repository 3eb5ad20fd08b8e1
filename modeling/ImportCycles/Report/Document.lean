import ImportCycles.Graph.Basic
import ImportCycles.Report.Json

namespace ImportCycles

namespace Report

def namesJson (names : List String) : Json :=
  .array (names.map .string)

/-- A cycle with the units its route splits into. -/
def cycleJson (trace : String) : Json :=
  .object [("trace", .string trace), ("units", namesJson (Route.split trace))]

def edgeJson (edge : String × String) : Json :=
  .object [("depender", .string edge.1), ("dependent", .string edge.2)]

/-- The verdict, the cycles with their units, the refused edges, and on request every unit and edge
    of the graph. -/
def document (g : Graph) (cycles rejected : List String) (includeGraph : Bool) : Json :=
  let verdict :=
    [("all_clear", .bool cycles.isEmpty),
      ("cycles", .array ((sortNames cycles).map cycleJson)),
      ("rejected", namesJson (sortDistinct rejected))]
  let contents :=
    if includeGraph then
      [("units", namesJson g.units), ("edges", .array (g.edges.map edgeJson))]
    else
      []
  .object (verdict ++ contents)

/-- The report as JSON text with an indentation. -/
def json (g : Graph) (cycles rejected : List String) (indent : Option Int) (includeGraph : Bool) :
    String :=
  Json.render (.ofIndent indent) (document g cycles rejected includeGraph)

end Report

end ImportCycles
