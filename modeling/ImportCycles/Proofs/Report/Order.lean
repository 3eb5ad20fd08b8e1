import ImportCycles.Report.Flowchart
import ImportCycles.Report.Text
import ImportCycles.Proofs.Sorted

namespace ImportCycles

namespace Report

variable {cycles others rejected : List String} {g h : Graph}

theorem text_congr (hperm : cycles.Perm others) (rejected : List String) :
    text cycles rejected = text others rejected := by
  simp only [text, cycleLines, hperm.isEmpty_eq, hperm.length_eq, sortNames_congr hperm]

theorem cycleEdges_congr (hsame : ∀ trace, trace ∈ cycles ↔ trace ∈ others) :
    cycleEdges cycles = cycleEdges others := by
  apply sortPairs_congr
  apply eraseDups_perm
  intro edge
  simp only [List.mem_flatMap, hsame]

/-- The chart of the cycles alone does not depend on the graph either. -/
theorem flowchart_congr (hsame : ∀ trace, trace ∈ cycles ↔ trace ∈ others) (orientation : String) :
    flowchart g cycles orientation true = flowchart h others orientation true := by
  simp only [flowchart, cycleEdges_congr hsame, if_true]

end Report

end ImportCycles
