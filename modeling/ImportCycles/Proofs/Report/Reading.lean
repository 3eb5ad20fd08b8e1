import ImportCycles.Proofs.Report.Cycles
import ImportCycles.Proofs.Report.Statement

namespace ImportCycles

namespace Report

/-- The nodes of a chart, each with its label. -/
def nodesOf (said : List Statement) : List (String × String) :=
  said.filterMap fun
    | .node id label => some (id, label)
    | _ => none

def linksOf (said : List Statement) : List (String × String) :=
  said.filterMap fun
    | .link source target => some (source, target)
    | _ => none

def linkStylesOf (said : List Statement) : List (List Nat) :=
  said.filterMap fun
    | .linkStyle positions => some positions
    | _ => none

def stylesOf (said : List Statement) : List String :=
  said.filterMap fun
    | .style id => some id
    | _ => none

/-- The edge that a link stands for, by the labels of the nodes at its ends. -/
def edgeOf? (nodes : List (String × String)) (link : String × String) : Option (String × String) :=
  do return (← nodes.lookup link.1, ← nodes.lookup link.2)

/-- An edge is a step along one of the given routes. -/
def IsStep (cycles : List String) (edge : String × String) : Prop :=
  ∃ trace ∈ cycles, edge ∈ stepsOf (Route.split trace)

/-- A name is an end of one of the edges. -/
def IsEnd (edges : String × String → Prop) (name : String) : Prop :=
  ∃ edge, edges edge ∧ (name = edge.1 ∨ name = edge.2)

/-- A chart without any colour, or one that colours the links of marked edges, by their positions,
    and the nodes of units at the ends of marked edges. -/
inductive Coloured (said : List Statement) (drawn : List (String × String))
    (marked : String × String → Prop) : Prop where
  | plain (hnone : ∀ edge ∈ drawn, ¬ marked edge) (hlinks : linkStylesOf said = [])
      (hnodes : stylesOf said = [])
  | red (positions : List Nat) (units : List String) (hsome : ∃ edge ∈ drawn, marked edge)
      (hlinks : linkStylesOf said = [positions]) (hascending : positions.Pairwise (· < ·))
      (hpositions : ∀ i, i ∈ positions ↔ ∃ edge, drawn[i]? = some edge ∧ marked edge)
      (hnodes : (stylesOf said).map (fun id => (nodesOf said).lookup id) = units.map some)
      (hdistinct : units.Nodup)
      (hunits : ∀ unit, unit ∈ units ↔ IsEnd (· ∈ drawn) unit ∧ IsEnd marked unit)

/-- A chart tells which edges were drawn and which of them are marked: one node for each end of an
    edge, one link for each edge, in order, and the colours. -/
structure ReadsBack (said : List Statement) (drawn : List (String × String))
    (marked : String × String → Prop) : Prop where
  idsDistinct : ((nodesOf said).map (·.1)).Nodup
  labelsDistinct : ((nodesOf said).map (·.2)).Nodup
  mem_labels_iff : ∀ name, name ∈ (nodesOf said).map (·.2) ↔ IsEnd (· ∈ drawn) name
  links_eq : (linksOf said).map (edgeOf? (nodesOf said)) = drawn.map some
  coloured : Coloured said drawn marked

section Chart

variable {links : List (String × String)} {red : List Nat} {units : List String}
  {orientation : String}

theorem nodup_endpoints (links : List (String × String)) : (endpoints links).Nodup := by
  refine List.Pairwise.imp ?_ (sortDistinct_pairwise_lt _)
  rintro a b hlt rfl
  exact String.lt_irrefl _ hlt

/-- The lines that colour a chart: the links at some positions and the nodes of some units. -/
def colourLines (ids : List (String × String)) (red : List Nat) (units : List String) :
    List String :=
  if red = [] then [] else
    ["", "    %% Cycle edges",
      "    linkStyle " ++ ",".intercalate (red.map toString) ++
        " stroke:#ff0000,stroke-width:2px"] ++
    units.map fun name => "    style " ++ idOf ids name ++ " stroke:#ff0000"

theorem chart_eq (orientation : String) (links : List (String × String)) (red : List Nat)
    (units : List String) :
    let ids := assignIds (endpoints links)
    chart orientation links red units =
      "\n".intercalate (("flowchart " ++ orientation) ::
        (nodeLines ids ++ ((if links.isEmpty then [] else [""]) ++
          (linkLines ids links ++ colourLines ids red units)))) := by
  simp only [chart, colourLines, List.isEmpty_iff, List.append_assoc, List.cons_append,
    List.nil_append]

/-- A blank line and a comment come before the colours. -/
theorem read_colourLines (red : List Nat) {ids : List (String × String)}
    (hunits : ∀ unit ∈ units, Identifier (idOf ids unit)) :
    (∀ line ∈ colourLines ids red units, '\n' ∉ line.toList) ∧
      (colourLines ids red units).filterMap (fun line => Statement.read? line.toList) =
        if red = [] then []
        else .linkStyle red :: units.map fun unit => .style (idOf ids unit) := by
  by_cases hred : red = []
  · simp [colourLines, hred]
  have hlinks := says_linkStyle hred
  have hstyles : ∀ unit ∈ units, Says ("    style " ++ idOf ids unit ++ " stroke:#ff0000")
      (.style (idOf ids unit)) := fun unit hunit => says_style (hunits unit hunit)
  have hblank : Statement.read? "".toList = none := by decide
  have hcomment : Statement.read? "    %% Cycle edges".toList = none := by decide
  rw [colourLines, if_neg hred, if_neg hred]
  constructor
  · simp only [List.cons_append, List.nil_append, List.forall_mem_cons, List.forall_mem_map]
    exact ⟨by decide, by decide, hlinks.unbroken, fun unit hunit => (hstyles unit hunit).unbroken⟩
  · rw [List.filterMap_append, filterMap_says hstyles]
    simp only [List.filterMap_cons, hblank, hcomment, hlinks.read_eq, List.filterMap_nil,
      List.singleton_append]

/-- What the lines of a chart say, one after the other. -/
def saying (ids links : List (String × String)) (red : List Nat) (units : List String) :
    List Statement :=
  ids.map (fun (name, id) => .node id name) ++
    links.map (fun (a, b) => .link (idOf ids a) (idOf ids b)) ++
    if red = [] then [] else .linkStyle red :: units.map fun unit => .style (idOf ids unit)

theorem statements_chart (horientation : '\n' ∉ orientation.toList)
    (hnames : ∀ name ∈ endpoints links, '\n' ∉ name.toList) (hunits : units ⊆ endpoints links) :
    statements (chart orientation links red units) =
      saying (assignIds (endpoints links)) links red units := by
  let ids := assignIds (endpoints links)
  have hid : ∀ name ∈ endpoints links, Identifier (idOf ids name) := fun name =>
    identifier_idOf (nodup_endpoints links)
  have hnodes : ∀ entry ∈ ids,
      Says ("    " ++ entry.2 ++ "[\"" ++ entry.1 ++ "\"]") (.node entry.2 entry.1) := by
    rintro ⟨name, id⟩ hentry
    have hname := mem_of_mem_assignIds hentry
    have heq := idOf_of_mem (nodup_endpoints links) hentry
    exact says_node (heq ▸ hid name hname) (hnames name hname)
  have hlinks : ∀ edge ∈ links, Says ("    " ++ idOf ids edge.1 ++ " --> " ++ idOf ids edge.2)
      (.link (idOf ids edge.1) (idOf ids edge.2)) := fun edge hedge =>
    says_link (hid _ (mem_endpoints.mpr ⟨edge, hedge, .inl rfl⟩))
      (hid _ (mem_endpoints.mpr ⟨edge, hedge, .inr rfl⟩))
  have hheader : '\n' ∉ ("flowchart " ++ orientation).toList := by simp [horientation]
  have hcolours := read_colourLines red fun unit hunit => hid unit (hunits hunit)
  have hgap : (∀ line ∈ if links.isEmpty then [] else [""], '\n' ∉ line.toList) ∧
      (if links.isEmpty then [] else [""]).filterMap
        (fun line => Statement.read? line.toList) = [] := by
    split
    · simp
    · exact ⟨by decide, by decide⟩
  rw [chart_eq, statements_intercalate hheader, List.filterMap_append, List.filterMap_append,
    List.filterMap_append, hgap.2, hcolours.2, nodeLines, filterMap_says hnodes, linkLines,
    filterMap_says hlinks, saying]
  · simp [ids]
  · simp only [List.mem_append]
    rintro line (hline | hline | hline | hline)
    · obtain ⟨entry, hentry, rfl⟩ := List.mem_map.mp hline
      exact (hnodes entry hentry).unbroken
    · exact hgap.1 line hline
    · obtain ⟨edge, hedge, rfl⟩ := List.mem_map.mp hline
      exact (hlinks edge hedge).unbroken
    · exact hcolours.1 line hline

variable {marked : List (String × String)}

theorem lookup_idOf {name : String} (hname : name ∈ endpoints links) :
    ((assignIds (endpoints links)).map Prod.swap).lookup
      (idOf (assignIds (endpoints links)) name) = some name := by
  refine lookup_of_mem ?_ ?_
  · rw [List.map_map]
    exact (assigned_assignIds _).distinct
  · exact List.mem_map.mpr ⟨_, mem_of_lookup (lookup_assignIds hname), rfl⟩

theorem isEnd_iff {name : String} : IsEnd (· ∈ links) name ↔ name ∈ endpoints links :=
  mem_endpoints.symm

theorem mem_redUnits {unit : String} :
    unit ∈ redUnits links marked ↔ IsEnd (· ∈ links) unit ∧ IsEnd (· ∈ marked) unit := by
  rw [redUnits, List.mem_filter, List.contains_iff_mem, isEnd_iff, isEnd_iff, and_comm]

section Saying

variable (ids links : List (String × String)) (red : List Nat) (units : List String)

theorem nodesOf_saying : nodesOf (saying ids links red units) = ids.map Prod.swap := by
  by_cases hred : red = [] <;> simp [saying, nodesOf, hred, List.filterMap_map]

theorem linksOf_saying :
    linksOf (saying ids links red units) = links.map fun (a, b) => (idOf ids a, idOf ids b) := by
  by_cases hred : red = [] <;> simp [saying, linksOf, hred, List.filterMap_map]

theorem linkStylesOf_saying :
    linkStylesOf (saying ids links red units) = if red = [] then [] else [red] := by
  by_cases hred : red = [] <;> simp [saying, linkStylesOf, hred, List.filterMap_map]

theorem stylesOf_saying :
    stylesOf (saying ids links red units) = if red = [] then [] else units.map (idOf ids) := by
  by_cases hred : red = [] <;> simp [saying, stylesOf, hred, List.filterMap_map]

end Saying

theorem pairwise_lt_highlighted (links marked : List (String × String)) :
    (highlighted links marked).Pairwise (· < ·) :=
  List.pairwise_lt_range.sublist (highlighted_sublist links marked)

theorem highlighted_eq_nil_iff :
    highlighted links marked = [] ↔ ∀ edge ∈ links, edge ∉ marked := by
  rw [List.eq_nil_iff_forall_not_mem]
  simp only [mem_highlighted, not_exists, not_and]
  constructor
  · intro hnone edge hedge
    obtain ⟨i, hi⟩ := List.mem_iff_getElem?.mp hedge
    exact hnone i edge hi
  · exact fun hnone i edge hi => hnone edge (List.mem_of_getElem? hi)

/-- A chart reads back as the edges it was made from, in red those that are marked. -/
theorem readsBack_chart (horientation : '\n' ∉ orientation.toList)
    (hnames : ∀ name ∈ endpoints links, '\n' ∉ name.toList) :
    ReadsBack (statements
      (chart orientation links (highlighted links marked) (redUnits links marked)))
      links (· ∈ marked) := by
  have hends : ∀ unit ∈ redUnits links marked, unit ∈ endpoints links := fun unit hunit =>
    isEnd_iff.mp (mem_redUnits.mp hunit).1
  have hassigned := assigned_assignIds (endpoints links)
  have hlabels : ((assignIds (endpoints links)).map Prod.swap).map (·.2) = endpoints links := by
    rw [List.map_map]
    exact hassigned.keys_eq
  rw [statements_chart horientation hnames hends]
  constructor
  case idsDistinct =>
    rw [nodesOf_saying, List.map_map]
    exact hassigned.distinct
  case labelsDistinct =>
    rw [nodesOf_saying, hlabels]
    exact nodup_endpoints links
  case mem_labels_iff =>
    intro name
    rw [nodesOf_saying, hlabels, isEnd_iff]
  case links_eq =>
    rw [linksOf_saying, nodesOf_saying, List.map_map]
    refine List.map_congr_left fun edge hedge => ?_
    have hfirst := lookup_idOf (mem_endpoints.mpr ⟨edge, hedge, .inl rfl⟩)
    have hsecond := lookup_idOf (mem_endpoints.mpr ⟨edge, hedge, .inr rfl⟩)
    simp [edgeOf?, hfirst, hsecond]
  case coloured =>
    by_cases hred : highlighted links marked = []
    · refine .plain (highlighted_eq_nil_iff.mp hred) ?_ ?_
      · rw [linkStylesOf_saying, if_pos hred]
      · rw [stylesOf_saying, if_pos hred]
    · refine .red _ (redUnits links marked) ?_ ?_ (pairwise_lt_highlighted links marked)
        (fun i => mem_highlighted) ?_ ((nodup_endpoints marked).filter _) fun unit => mem_redUnits
      · rw [highlighted_eq_nil_iff] at hred
        push Not at hred
        exact hred
      · rw [linkStylesOf_saying, if_neg hred]
      · rw [stylesOf_saying, if_neg hred, nodesOf_saying, List.map_map]
        exact List.map_congr_left fun unit hunit => lookup_idOf (hends unit hunit)

theorem isStep_iff {cycles : List String} {edge : String × String} :
    edge ∈ cycleEdges cycles ↔ IsStep cycles edge :=
  mem_cycleEdges

/-- The steps along given routes are drawn in order, each once. -/
theorem pairwise_lt_cycleEdges (cycles : List String) :
    (cycleEdges cycles).Pairwise fun e f => e.1 < f.1 ∨ e.1 = f.1 ∧ e.2 < f.2 := by
  have hsorted : (cycleEdges cycles).Pairwise fun e f => pairLe e f = true :=
    insertionSort_pairwise pairLe_trans pairLe_total _
  refine hsorted.imp₂ (fun e f hle hne => ?_) (nodup_cycleEdges cycles)
  rcases pairLe_iff.mp hle with hlt | ⟨heq, hle⟩
  · exact .inl hlt
  · exact .inr ⟨heq, lt_of_le_ne hle fun h => hne (Prod.ext heq h)⟩

theorem mem_split_of_isStep {cycles : List String} {edge : String × String} {name : String}
    (hstep : IsStep cycles edge) (hend : name = edge.1 ∨ name = edge.2) :
    ∃ trace ∈ cycles, name ∈ Route.split trace := by
  obtain ⟨trace, htrace, hstep⟩ := hstep
  obtain ⟨hfirst, hsecond⟩ := List.of_mem_zip hstep
  refine ⟨trace, htrace, ?_⟩
  rcases hend with rfl | rfl
  · exact hfirst
  · exact List.mem_of_mem_tail hsecond

end Chart

variable {allowCycles : Bool} {g : Graph} {cycles : List String} {orientation : String}
  {onlyCycles : Bool}

/-- A chart reads back to the edges it was made from. These are the steps along the given traces, in
    order, or the edges of the graph, in the order of its list. If no line break stands in a name,
    the lines of the chart define each end of such an edge once, link the edges one after another,
    and colour just the links that are steps along a trace, and the nodes at the ends of such
    steps. -/
theorem flowchart_readsBack (hreach : Graph.Reachable allowCycles g)
    (horientation : '\n' ∉ orientation.toList)
    (htraces : onlyCycles = true →
      ∀ trace ∈ cycles, ∀ unit ∈ Route.split trace, '\n' ∉ unit.toList)
    (hunits : onlyCycles = false → ∀ unit ∈ g.units, '\n' ∉ unit.toList) :
    ∃ drawn : List (String × String),
      (onlyCycles = true →
        drawn.Pairwise (fun e f => e.1 < f.1 ∨ e.1 = f.1 ∧ e.2 < f.2) ∧
        ∀ edge, edge ∈ drawn ↔ IsStep cycles edge) ∧
      (onlyCycles = false → drawn = g.edges) ∧ drawn.Nodup ∧
      ReadsBack (statements (flowchart g cycles orientation onlyCycles)) drawn (IsStep cycles) := by
  have hmarked : (· ∈ cycleEdges cycles) = IsStep cycles := funext fun edge => propext isStep_iff
  rw [flowchart_eq_chart, ← hmarked]
  cases onlyCycles with
  | true =>
    refine ⟨cycleEdges cycles, fun _ => ⟨pairwise_lt_cycleEdges cycles, fun edge => Iff.rfl⟩,
      nofun, nodup_cycleEdges cycles, readsBack_chart horientation fun name hname => ?_⟩
    obtain ⟨edge, hedge, hend⟩ := mem_endpoints.mp hname
    obtain ⟨trace, htrace, hunit⟩ := mem_split_of_isStep (isStep_iff.mp hedge) hend
    exact htraces rfl trace htrace name hunit
  | false =>
    obtain ⟨log, hlog⟩ := Graph.reachable_iff_logged.mp hreach
    have hstores := hlog.stores
    refine ⟨g.edges, nofun, fun _ => rfl, hstores.edges_perm.nodup_iff.mpr hstores.nodup,
      readsBack_chart horientation fun name hname => ?_⟩
    exact hunits rfl name (hstores.mem_units_iff_edges.mpr (mem_endpoints.mp hname))

/-- Two names that make the same identifier, and a trace one of whose steps is not in the graph. -/
theorem flowchart_readsBack_collidingNames :
    let g := (((Graph.empty true).add "a.b" "a_b").2.add "a_b" "c").2
    let cycles := ["a.b -> a_b -> a.b"]
    (∃ drawn : List (String × String), (∀ edge, edge ∈ drawn ↔ IsStep cycles edge) ∧
      ReadsBack (statements (flowchart g cycles "LR" true)) drawn (IsStep cycles)) ∧
    ReadsBack (statements (flowchart g cycles "LR" false)) [("a.b", "a_b"), ("a_b", "c")]
      (IsStep cycles) := by
  intro g cycles
  have hreach : Graph.Reachable true g :=
    ((Graph.reachable_empty true).add "a.b" "a_b").add "a_b" "c"
  have htraces : ∀ trace ∈ cycles, ∀ unit ∈ Route.split trace, '\n' ∉ unit.toList := by decide
  have hunits : ∀ unit ∈ g.units, '\n' ∉ unit.toList := by decide
  have hedges : g.edges = [("a.b", "a_b"), ("a_b", "c")] := by decide
  constructor
  · obtain ⟨drawn, hsteps, -, -, hreads⟩ := @flowchart_readsBack true g cycles "LR" true hreach
      (by decide) (fun _ => htraces) nofun
    exact ⟨drawn, (hsteps rfl).2, hreads⟩
  · obtain ⟨drawn, -, hwhole, -, hreads⟩ := @flowchart_readsBack true g cycles "LR" false
      hreach (by decide) nofun (fun _ => hunits)
    rwa [hwhole rfl, hedges] at hreads

end Report

end ImportCycles
