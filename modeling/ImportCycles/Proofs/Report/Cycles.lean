import ImportCycles.Report.Document
import ImportCycles.Proofs.Audit.Apart
import ImportCycles.Proofs.Graph.Filling
import ImportCycles.Proofs.Graph.Log
import ImportCycles.Proofs.Report.Flowchart

namespace ImportCycles

/-- The value of a member of an object. -/
def Json.member? (key : String) : Json → Option Json
  | .object members => members.lookup key
  | _ => none

namespace Report

variable {cycles : List String} {links marked : List (String × String)} {name : String}

/-- The text of a chart: a node for each end of a link, the links between their nodes, and in red
    the links at some positions and the nodes of some units. -/
def chart (orientation : String) (links : List (String × String)) (red : List Nat)
    (redUnits : List String) : String :=
  let ids := assignIds (endpoints links)
  let styles := if red.isEmpty then [] else
    ["", "    %% Cycle edges",
      "    linkStyle " ++ ",".intercalate (red.map toString) ++
        " stroke:#ff0000,stroke-width:2px"] ++
    redUnits.map fun name => "    style " ++ idOf ids name ++ " stroke:#ff0000"
  "\n".intercalate
    (["flowchart " ++ orientation] ++ nodeLines ids ++ (if links.isEmpty then [] else [""]) ++
      linkLines ids links ++ styles)

/-- The units to colour: those at the ends of marked edges that have a node. -/
def redUnits (links marked : List (String × String)) : List String :=
  (endpoints marked).filter (endpoints links).contains

theorem flowchart_eq_chart (g : Graph) (cycles : List String) (orientation : String)
    (onlyCycles : Bool) :
    flowchart g cycles orientation onlyCycles =
      let links := if onlyCycles then cycleEdges cycles else g.edges
      chart orientation links (highlighted links (cycleEdges cycles))
        (redUnits links (cycleEdges cycles)) := by
  simp only [flowchart, chart, styleLines, redUnits, (assigned_assignIds _).keys_eq]

theorem mem_highlighted {i : Nat} :
    i ∈ highlighted links marked ↔ ∃ edge, links[i]? = some edge ∧ edge ∈ marked := by
  simp only [highlighted, List.mem_map, List.mem_filter, List.contains_iff_mem]
  constructor
  · rintro ⟨⟨edge, i⟩, ⟨hat, hmarked⟩, rfl⟩
    exact ⟨edge, List.mem_zipIdx_iff_getElem?.mp hat, hmarked⟩
  · rintro ⟨edge, hat, hmarked⟩
    exact ⟨(edge, i), ⟨List.mem_zipIdx_iff_getElem?.mpr hat, hmarked⟩, rfl⟩

theorem map_snd_zipIdx (links : List (String × String)) :
    links.zipIdx.map (·.2) = List.range links.length := by
  rw [List.zipIdx_map_snd, List.range_eq_range']

/-- Links are coloured in ascending order of their positions. -/
theorem highlighted_sublist (links marked : List (String × String)) :
    (highlighted links marked).Sublist (List.range links.length) := by
  rw [← map_snd_zipIdx]
  exact List.filter_sublist.map _

theorem highlighted_self (links : List (String × String)) :
    highlighted links links = List.range links.length := by
  rw [← map_snd_zipIdx, highlighted, List.filter_eq_self.mpr]
  rintro ⟨edge, i⟩ hat
  exact List.contains_iff_mem.mpr (List.fst_mem_of_mem_zipIdx hat)

/-- A cycle as it stands in the document. -/
def claimJson (cycle : List String) : Json :=
  .object [("trace", .string (Route.join cycle)), ("units", namesJson cycle)]

theorem document_cycles (g : Graph) (cycles rejected : List String) (includeGraph : Bool) :
    (document g cycles rejected includeGraph).member? "cycles" =
      some (.array ((sortNames cycles).map cycleJson)) := rfl

theorem mem_cycleEdges {a b : String} :
    (a, b) ∈ cycleEdges cycles ↔ ∃ trace ∈ cycles, (a, b) ∈ stepsOf (Route.split trace) := by
  simp [cycleEdges, stepsOf]

theorem nodup_cycleEdges (cycles : List String) : (cycleEdges cycles).Nodup :=
  (sortPairs_perm _).nodup_iff.mpr (nodup_eraseDups _)

end Report

namespace Graph

variable {allowCycles : Bool} {g : Graph} {cycle traces : List String} {a b unit : String}
  {links steps : List (String × String)}

/-- The unit `b` follows `a` on a recorded cycle. -/
def CycleStep (g : Graph) (a b : String) : Prop :=
  ∃ cycle ∈ g.findings.claims.items, (a, b) ∈ stepsOf cycle

/-- The unit lies on a recorded cycle. -/
def OnCycle (g : Graph) (unit : String) : Prop :=
  ∃ cycle ∈ g.findings.claims.items, unit ∈ cycle

instance (g : Graph) (a b : String) : Decidable (g.CycleStep a b) :=
  inferInstanceAs (Decidable (∃ cycle ∈ g.findings.claims.items, (a, b) ∈ stepsOf cycle))

instance (g : Graph) (unit : String) : Decidable (g.OnCycle unit) :=
  inferInstanceAs (Decidable (∃ cycle ∈ g.findings.claims.items, unit ∈ cycle))

theorem WellFormed.edge_of_cycleStep (hwell : g.WellFormed) (hstep : g.CycleStep a b) :
    g.dependencies.Edge a b := by
  obtain ⟨cycle, hcycle, hstep⟩ := hstep
  exact rel_of_mem_stepsOf (hwell.findings.claimsSimple cycle hcycle).follows hstep

/-- Among plain names the text of a claimed cycle splits into its units. -/
theorem WellFormed.split_join_claim (hwell : g.WellFormed)
    (hplain : ∀ unit ∈ g.units, Route.Plain unit) (hcycle : cycle ∈ g.findings.claims.items) :
    Route.split (Route.join cycle) = cycle :=
  split_join_of_circuit (hwell.findings.claimsSimple cycle hcycle).toCircuit hplain

theorem WellFormed.mem_cycleEdges_iff (hwell : g.WellFormed)
    (hplain : ∀ unit ∈ g.units, Route.Plain unit)
    (htraces : ∀ trace, trace ∈ traces ↔ trace ∈ g.cycles) :
    (a, b) ∈ Report.cycleEdges traces ↔ g.CycleStep a b := by
  rw [Report.mem_cycleEdges]
  constructor
  · rintro ⟨trace, htrace, hstep⟩
    obtain ⟨cycle, hcycle, rfl⟩ := hwell.mem_cycles_iff.mp ((htraces trace).mp htrace)
    rw [hwell.split_join_claim hplain hcycle] at hstep
    exact ⟨cycle, hcycle, hstep⟩
  · rintro ⟨cycle, hcycle, hstep⟩
    refine ⟨_, (htraces _).mpr (hwell.mem_cycles_iff.mpr ⟨cycle, hcycle, rfl⟩), ?_⟩
    rwa [hwell.split_join_claim hplain hcycle]

/-- The units on recorded cycles are the ends of the steps along them. -/
theorem WellFormed.mem_endpoints_iff (hwell : g.WellFormed)
    (hsteps : ∀ a b, (a, b) ∈ steps ↔ g.CycleStep a b) :
    unit ∈ Report.endpoints steps ↔ g.OnCycle unit := by
  rw [Report.mem_endpoints]
  constructor
  · rintro ⟨⟨a, b⟩, hstep, hend⟩
    obtain ⟨cycle, hcycle, hstep⟩ := (hsteps a b).mp hstep
    obtain ⟨ha, hb⟩ := List.of_mem_zip hstep
    refine ⟨cycle, hcycle, ?_⟩
    rcases hend with rfl | rfl
    · exact ha
    · exact List.mem_of_mem_tail hb
  · rintro ⟨cycle, hcycle, hunit⟩
    have hcircuit := (hwell.findings.claimsSimple cycle hcycle).toCircuit
    rw [← hcircuit.mem_opened_iff, hcircuit.opened_eq, ← map_fst_stepsOf, List.mem_map] at hunit
    obtain ⟨⟨a, b⟩, hstep, rfl⟩ := hunit
    exact ⟨(a, b), (hsteps a b).mpr ⟨cycle, hcycle, hstep⟩, .inl rfl⟩

/-- Where the steps along recorded cycles are drawn, the units on these cycles are coloured. -/
theorem WellFormed.mem_redUnits_iff (hwell : g.WellFormed)
    (hsteps : ∀ a b, (a, b) ∈ steps ↔ g.CycleStep a b) (hdrawn : steps ⊆ links) :
    unit ∈ Report.redUnits links steps ↔ g.OnCycle unit := by
  have hends : unit ∈ Report.endpoints steps → unit ∈ Report.endpoints links := by
    rw [Report.mem_endpoints, Report.mem_endpoints]
    rintro ⟨edge, hstep, hend⟩
    exact ⟨edge, hdrawn hstep, hend⟩
  rw [← hwell.mem_endpoints_iff hsteps, Report.redUnits, List.mem_filter, List.contains_iff_mem]
  exact ⟨And.left, fun hmem => ⟨hmem, hends hmem⟩⟩

/-- Among plain names the recorded traces are the texts of the claimed cycles, one by one. -/
theorem WellFormed.traces_perm (hwell : g.WellFormed) (hnodup : g.cycles.Nodup)
    (hplain : ∀ unit ∈ g.units, Route.Plain unit) :
    g.cycles.Perm (g.findings.claims.items.map Route.join) := by
  have hclaims : (g.findings.claims.items.map Route.join).Nodup := by
    refine List.Nodup.map_on ?_ (.of_map Rotation.key hwell.nodup_keys_claims)
    intro cycle hcycle other hother hjoin
    rw [← hwell.split_join_claim hplain hcycle, hjoin, hwell.split_join_claim hplain hother]
  refine (List.perm_ext_iff_of_nodup hnodup hclaims).mpr fun trace => ?_
  rw [hwell.mem_cycles_iff, List.mem_map]

/-- The document lists the claimed cycles, each with its own units. -/
theorem WellFormed.exists_order (hwell : g.WellFormed) (hnodup : g.cycles.Nodup)
    (hplain : ∀ unit ∈ g.units, Route.Plain unit) (htraces : traces.Perm g.cycles)
    (rejected : List String) (includeGraph : Bool) :
    ∃ order : List (List String), order.Perm g.findings.claims.items ∧
      (Report.document g traces rejected includeGraph).member? "cycles" =
        some (.array (order.map Report.claimJson)) := by
  have hsplit : ∀ cycle ∈ g.findings.claims.items, Route.split (Route.join cycle) = cycle :=
    fun cycle hcycle => hwell.split_join_claim hplain hcycle
  have hsorted : (sortNames traces).Perm (g.findings.claims.items.map Route.join) :=
    ((sortNames_perm traces).trans htraces).trans (hwell.traces_perm hnodup hplain)
  refine ⟨(sortNames traces).map Route.split, ?_, ?_⟩
  · refine (hsorted.map Route.split).trans (.of_eq ?_)
    rw [List.map_map]
    exact (List.map_congr_left hsplit).trans (List.map_id _)
  · rw [Report.document_cycles, List.map_map]
    refine congrArg (some ∘ Json.array) (List.map_congr_left fun trace htrace => ?_)
    obtain ⟨cycle, hcycle, rfl⟩ := List.mem_map.mp (hsorted.mem_iff.mp htrace)
    simp only [Function.comp_apply, Report.cycleJson, Report.claimJson, hsplit cycle hcycle]

theorem Stores.edges_perm {log : List (String × String)} (hstores : g.Stores log) :
    g.edges.Perm log := by
  have hsorted := hstores.dependencies.sorted_pairs
  change g.edges = _ at hsorted
  rw [hsorted]
  exact List.mergeSort_perm _ _

theorem Stores.mem_units_iff_edges {log : List (String × String)} (hstores : g.Stores log) :
    unit ∈ g.units ↔ ∃ edge ∈ g.edges, unit = edge.1 ∨ unit = edge.2 := by
  rw [hstores.mem_units_iff]
  simp [endpoints, hstores.edges_perm.mem_iff]

theorem Reachable.mem_edges_iff (hreach : Reachable allowCycles g) :
    (a, b) ∈ g.edges ↔ g.dependencies.Edge a b := by
  obtain ⟨log, hlog⟩ := reachable_iff_logged.mp hreach
  rw [hlog.stores.edges_perm.mem_iff, hlog.stores.dependencies.edge_iff]

end Graph

end ImportCycles
