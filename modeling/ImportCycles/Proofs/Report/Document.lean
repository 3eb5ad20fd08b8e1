import ImportCycles.Proofs.Json.Written
import ImportCycles.Proofs.Report.Cycles

namespace ImportCycles

namespace Report

open Json (Value decode)

def namesValue (names : List String) : Value :=
  .array (names.map .string)

/-- A cycle with the units of its route. -/
def cycleValue (trace : String) : Value :=
  .object [("trace", .string trace), ("units", namesValue (Route.split trace))]

def edgeValue (edge : String × String) : Value :=
  .object [("depender", .string edge.1), ("dependent", .string edge.2)]

variable {g : Graph} {allowCycles : Bool}

theorem toValue_namesJson (names : List String) : (namesJson names).toValue = namesValue names := by
  simp only [namesJson, namesValue, Json.toValue, List.map_map, Function.comp_def]

theorem toValue_cycleJson (trace : String) : (cycleJson trace).toValue = cycleValue trace := by
  simp only [cycleJson, cycleValue, Json.toValue, List.map_cons, List.map_nil, toValue_namesJson]

theorem toValue_edgeJson (edge : String × String) : (edgeJson edge).toValue = edgeValue edge := by
  simp only [edgeJson, edgeValue, Json.toValue, List.map_cons, List.map_nil]

theorem toValue_document (g : Graph) (cycles rejected : List String) (includeGraph : Bool) :
    (document g cycles rejected includeGraph).toValue =
      .object ([("all_clear", .bool cycles.isEmpty),
        ("cycles", .array ((sortNames cycles).map cycleValue)),
        ("rejected", namesValue (sortDistinct rejected))] ++
        if includeGraph then
          [("units", namesValue g.units), ("edges", .array (g.edges.map edgeValue))]
        else []) := by
  cases includeGraph <;>
    simp [document, Json.toValue, toValue_namesJson, toValue_cycleJson, toValue_edgeJson]

/-- The report decodes to its data, whatever the traces hold. It tells whether there is no cycle,
    and lists the traces of the cycles in order, each with the units it splits into, the refused
    traces in order, each once, and on request the units in order and the edges of the graph. The
    text is ASCII, and what it decodes to does not depend on the indentation. -/
theorem json_decodes (hreach : Graph.Reachable allowCycles g) (cycles rejected : List String)
    (includeGraph : Bool) :
    ∃ found refused units : List String,
      (found.Perm cycles ∧ found.Pairwise (· ≤ ·)) ∧
      (refused.Pairwise (· < ·) ∧ ∀ trace, trace ∈ refused ↔ trace ∈ rejected) ∧
      (units.Pairwise (· < ·) ∧
        ∀ unit, unit ∈ units ↔ ∃ edge ∈ g.edges, unit = edge.1 ∨ unit = edge.2) ∧
      ∀ indent,
        Json.IsAscii (json g cycles rejected indent includeGraph).toList ∧
        decode (json g cycles rejected indent includeGraph) =
          some (.object ([("all_clear", .bool cycles.isEmpty),
            ("cycles", .array (found.map cycleValue)), ("rejected", namesValue refused)] ++
            if includeGraph then
              [("units", namesValue units), ("edges", .array (g.edges.map edgeValue))]
            else [])) := by
  obtain ⟨log, hlog⟩ := Graph.reachable_iff_logged.mp hreach
  refine ⟨sortNames cycles, sortDistinct rejected, g.units,
    ⟨sortNames_perm cycles, sortNames_pairwise cycles⟩,
    ⟨sortDistinct_pairwise_lt rejected, fun trace => mem_sortDistinct⟩,
    ⟨sortDistinct_pairwise_lt _, fun unit => hlog.stores.mem_units_iff_edges⟩, fun indent => ?_⟩
  rw [json, Json.decode_render, toValue_document, Json.render, String.toList_ofList]
  exact ⟨Json.isAscii_write _ 0, rfl⟩

/-- A quotation mark, a backslash and a character beyond the basic plane in the names. -/
theorem json_decodes_escaped :
    let g := ((Graph.empty true).add "a\"b" "😀").2
    let trace := "a\"b -> 😀 -> a\"b"
    ∃ refused units : List String,
      (refused.Pairwise (· < ·) ∧ ∀ trace, trace ∈ refused ↔ trace ∈ ["\\", "\\"]) ∧
      (∀ unit, unit ∈ units ↔ unit = "a\"b" ∨ unit = "😀") ∧
      ∀ indent, decode (json g [trace] ["\\", "\\"] indent true) =
        some (.object [("all_clear", .bool false),
          ("cycles", .array [.object
            [("trace", .string trace), ("units", namesValue ["a\"b", "😀", "a\"b"])]]),
          ("rejected", namesValue refused), ("units", namesValue units),
          ("edges", .array [edgeValue ("a\"b", "😀")])]) := by
  intro g trace
  have hreach : Graph.Reachable true g := (Graph.reachable_empty true).add "a\"b" "😀"
  have hedges : g.edges = [("a\"b", "😀")] := by decide
  have hsplit : Route.split trace = ["a\"b", "😀", "a\"b"] := by decide
  obtain ⟨found, refused, units, ⟨hfound, -⟩, hrefused, ⟨-, hunits⟩, hdecodes⟩ :=
    json_decodes hreach [trace] ["\\", "\\"] true
  obtain rfl := List.perm_singleton.mp hfound
  refine ⟨refused, units, hrefused, fun unit => ?_, fun indent => ?_⟩
  · simpa [hedges] using hunits unit
  · rw [(hdecodes indent).2, hedges]
    simp [cycleValue, hsplit]

end Report

end ImportCycles
