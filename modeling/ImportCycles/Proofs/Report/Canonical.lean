import ImportCycles.Proofs.Report.Document

namespace ImportCycles

namespace Graph

variable {g h : Graph} {log other : List (String × String)}

theorem edges_pairwise (g : Graph) : g.edges.Pairwise fun a b => a.1 ≤ b.1 :=
  Table.pairs_pairwise (insertionSort_pairwise_key (·.1) g.dependencies.rows)

/-- Among the edges, those of one unit keep the order of its row. -/
theorem Stores.edges_filter (hstores : g.Stores log) (unit : String) :
    g.edges.filter (·.1 = unit) = (g.dependents unit).map (unit, ·) := by
  let keyOf : String × List String → String := (·.1)
  change (Table.pairs (insertionSort (fun a b => decide (keyOf a ≤ keyOf b)) _)).filter _ = _
  rw [Table.pairs_filter, insertionSort_filter keyOf,
    Table.pairs_filter_eq_row hstores.dependencies.keysNodup, dependents]

theorem Stores.edges_eq_iff (hstores : g.Stores log) (hother : h.Stores other) :
    g.edges = h.edges ↔ ∀ unit, g.dependents unit = h.dependents unit := by
  constructor
  · intro heq unit
    have hrows := hstores.edges_filter unit
    rw [heq, hother.edges_filter] at hrows
    exact (List.map_injective_iff.mpr (Prod.mk_right_injective unit) hrows).symm
  · intro hrows
    refine eq_of_filter_eq (·.1) (edges_pairwise g) (edges_pairwise h) fun unit => ?_
    rw [hstores.edges_filter, hother.edges_filter, hrows]

theorem Stores.units_congr (hstores : g.Stores log) (hother : h.Stores other)
    (hsame : ∀ edge, edge ∈ g.edges ↔ edge ∈ h.edges) : g.units = h.units := by
  refine sortDistinct_eq_iff.mpr fun unit => ?_
  have hunits : unit ∈ g.units ↔ unit ∈ h.units := by
    simp only [hstores.mem_units_iff_edges, hother.mem_units_iff_edges, hsame]
  simpa [units] using hunits

theorem map_fst_edges_congr (hperm : g.edges.Perm h.edges) :
    g.edges.map (·.1) = h.edges.map (·.1) :=
  List.Perm.eq_of_pairwise (fun _ _ _ _ => String.le_antisymm)
    (List.pairwise_map.mpr g.edges_pairwise) (List.pairwise_map.mpr h.edges_pairwise)
    (hperm.map _)

end Graph

namespace Report

open Json (Value)

variable {g h : Graph} {cycles others rejected refused : List String} {indent : Option Int}
  {includeGraph allowCycles allowOthers : Bool}

theorem namesValue_injective : Function.Injective namesValue := by
  intro names others heq
  exact List.map_injective_iff.mpr (fun _ _ => Value.string.inj) (Value.array.inj heq)

theorem cycleValue_injective : Function.Injective cycleValue := by
  intro trace other heq
  simp only [cycleValue, Value.object.injEq, List.cons.injEq, Prod.mk.injEq] at heq
  exact Value.string.inj heq.1.2

theorem edgeValue_injective : Function.Injective edgeValue := by
  intro edge other heq
  simp only [edgeValue, Value.object.injEq, List.cons.injEq, Prod.mk.injEq, true_and,
    and_true, Value.string.injEq] at heq
  exact Prod.ext heq.1 heq.2

/-- Reports are the same text exactly if they have the same parts. -/
theorem json_eq_iff_parts :
    json g cycles rejected indent includeGraph = json h others refused indent includeGraph ↔
      sortNames cycles = sortNames others ∧ sortDistinct rejected = sortDistinct refused ∧
        (includeGraph = true → g.units = h.units ∧ g.edges = h.edges) := by
  have hcycles := List.map_injective_iff.mpr cycleValue_injective
  have hedges := List.map_injective_iff.mpr edgeValue_injective
  constructor
  · intro heq
    have hvalue := congrArg Json.decode heq
    rw [json, json, Json.decode_render, Json.decode_render, toValue_document, toValue_document]
      at hvalue
    cases includeGraph with
    | false =>
      simp only [Bool.false_eq_true, if_false, List.append_nil, Option.some.injEq,
        Value.object.injEq, List.cons.injEq, Prod.mk.injEq, true_and, and_true] at hvalue
      obtain ⟨-, hfound, hrejected⟩ := hvalue
      exact ⟨hcycles (Value.array.inj hfound), namesValue_injective hrejected,
        fun hshow => absurd hshow Bool.false_ne_true⟩
    | true =>
      simp only [if_true, List.cons_append, List.nil_append, Option.some.injEq,
        Value.object.injEq, List.cons.injEq, Prod.mk.injEq, true_and, and_true] at hvalue
      obtain ⟨-, hfound, hrejected, hunits, hdrawn⟩ := hvalue
      exact ⟨hcycles (Value.array.inj hfound), namesValue_injective hrejected,
        fun _ => ⟨namesValue_injective hunits, hedges (Value.array.inj hdrawn)⟩⟩
  · rintro ⟨hfound, hrejected, hgraph⟩
    have hempty : cycles.isEmpty = others.isEmpty := (sortNames_eq_iff.mp hfound).isEmpty_eq
    refine congrArg (Json.render _) ?_
    cases includeGraph with
    | false => simp [document, hempty, hfound, hrejected]
    | true =>
      obtain ⟨hunits, hdrawn⟩ := hgraph rfl
      simp [document, hempty, hfound, hrejected, hunits, hdrawn]

/-- Just how canonical a report is. Two reports are the same text if and only if they were given the
    same cycles in any order, the same refused traces in any order and number, and, if they show
    their graphs, each unit lists the same dependents in the same order. Graphs with the same edges
    show the same units and the same dependers, line by line, so that only the edges of one depender
    can stand in different orders. -/
theorem json_eq_iff (hreach : Graph.Reachable allowCycles g)
    (hother : Graph.Reachable allowOthers h) :
    (json g cycles rejected indent includeGraph = json h others refused indent includeGraph ↔
      cycles.Perm others ∧ (∀ trace, trace ∈ rejected ↔ trace ∈ refused) ∧
        (includeGraph = true → ∀ unit, g.dependents unit = h.dependents unit)) ∧
    ((∀ edge, edge ∈ g.edges ↔ edge ∈ h.edges) →
      g.units = h.units ∧ g.edges.map (·.1) = h.edges.map (·.1)) := by
  obtain ⟨log, hlog⟩ := Graph.reachable_iff_logged.mp hreach
  obtain ⟨otherLog, hotherLog⟩ := Graph.reachable_iff_logged.mp hother
  have hstores := hlog.stores
  have hstoresToo := hotherLog.stores
  have hunits := hstores.units_congr hstoresToo
  constructor
  · have hgraph : g.units = h.units ∧ g.edges = h.edges ↔
        ∀ unit, g.dependents unit = h.dependents unit := by
      rw [← hstores.edges_eq_iff hstoresToo]
      exact ⟨And.right, fun hedges => ⟨hunits (by simp [hedges]), hedges⟩⟩
    rw [json_eq_iff_parts, sortNames_eq_iff, sortDistinct_eq_iff, hgraph]
  · intro hsame
    have hnodup := hstores.edges_perm.nodup_iff.mpr hstores.nodup
    have hnodupToo := hstoresToo.edges_perm.nodup_iff.mpr hstoresToo.nodup
    have hperm := (List.perm_ext_iff_of_nodup hnodup hnodupToo).mpr hsame
    exact ⟨hunits hsame, Graph.map_fst_edges_congr hperm⟩

/-- A lenient graph, and a strict one that got its edges in another order and refused one. -/
theorem json_eq_iff_refusedEdge :
    let g := (((Graph.empty true).add "a" "b").2.add "b" "c").2
    let h := ((((Graph.empty false).add "b" "c").2.add "a" "b").2.add "c" "a").2
    Graph.Reachable true g ∧ Graph.Reachable false h ∧
      json g ["y", "x"] ["r", "r"] (some 2) true = json h ["x", "y"] ["r"] (some 2) true ∧
      json g ["y", "x"] [] none false ≠ json h ["x", "x"] [] none false := by
  intro g h
  have hg : Graph.Reachable true g := ((Graph.reachable_empty true).add "a" "b").add "b" "c"
  have hh : Graph.Reachable false h :=
    (((Graph.reachable_empty false).add "b" "c").add "a" "b").add "c" "a"
  have hrows : ∀ unit, g.dependents unit = h.dependents unit := by
    obtain ⟨_, hlog⟩ := Graph.reachable_iff_logged.mp hg
    obtain ⟨_, hother⟩ := Graph.reachable_iff_logged.mp hh
    exact (hlog.stores.edges_eq_iff hother.stores).mp (by decide)
  refine ⟨hg, hh, (json_eq_iff hg hh).1.mpr ⟨by decide, by simp, fun _ => hrows⟩, fun heq => ?_⟩
  obtain ⟨hperm, -⟩ := (json_eq_iff hg hh).1.mp heq
  exact absurd hperm (by decide)

/-- The same two edges in another order make another report. -/
theorem json_insertionOrder :
    let g := ((Graph.empty true).addAll [("a", "b"), ("a", "c")]).2
    let h := ((Graph.empty true).addAll [("a", "c"), ("a", "b")]).2
    (∀ edge, edge ∈ g.edges ↔ edge ∈ h.edges) ∧
      json g [] [] (some 2) true ≠ json h [] [] (some 2) true := by
  intro g h
  have hedges : g.edges = [("a", "b"), ("a", "c")] := by decide
  have hother : h.edges = [("a", "c"), ("a", "b")] := by decide
  refine ⟨fun edge => ?_, fun heq => ?_⟩
  · rw [hedges, hother]
    simp [or_comm]
  · obtain ⟨-, -, hgraph⟩ := json_eq_iff_parts.mp heq
    rw [hedges, hother] at hgraph
    exact absurd (hgraph rfl).2 (by decide)

end Report

end ImportCycles
