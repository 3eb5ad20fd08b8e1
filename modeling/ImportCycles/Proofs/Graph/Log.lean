import Mathlib.Data.Finset.Card
import ImportCycles.Proofs.Graph.History

namespace ImportCycles

namespace Table

/-- A table holds the edges of a log: under each key the second ends, in the order of the log. -/
structure Lists (t : Table) (log : List (String × String)) : Prop where
  tight : t.Tight
  keysNodup : t.keys.Nodup
  row_eq : ∀ key, t.row key = (log.filter (·.1 = key)).map (·.2)

variable {t : Table} {log : List (String × String)} {a b : String}

theorem lists_nil : (Table.mk []).Lists [] where
  tight := by simp [Tight]
  keysNodup := .nil
  row_eq _ := rfl

theorem Lists.edge_iff (hlists : t.Lists log) : t.Edge a b ↔ (a, b) ∈ log := by
  rw [Edge, hlists.row_eq]
  simp

theorem Lists.mem_keys_iff (hlists : t.Lists log) : a ∈ t.keys ↔ a ∈ log.map (·.1) := by
  rw [hlists.tight.mem_keys_iff, hlists.row_eq]
  simp [List.filter_eq_nil_iff]

theorem Lists.insert (hlists : t.Lists log) (hnew : (a, b) ∉ log) :
    (t.insert a b).Lists (log ++ [(a, b)]) where
  tight := hlists.tight.insert a b
  keysNodup := by
    rw [keys_insert]
    split
    · exact hlists.keysNodup
    · rename_i hkey
      exact List.nodup_append.mpr
        ⟨hlists.keysNodup, List.nodup_singleton a, by rintro _ hx _ hy rfl; simp_all⟩
  row_eq key := by
    have hfresh : b ∉ t.row a := fun hmem => hnew (hlists.edge_iff.mp hmem)
    rw [row_insert, hlists.row_eq a, hlists.row_eq key, List.filter_append, List.map_append]
    by_cases hkey : key = a
    · subst hkey
      simp [← hlists.row_eq, hfresh]
    · simp [hkey, Ne.symm hkey]

/-- The edges of a table, row after row. -/
def pairs (rows : List (String × List String)) : List (String × String) :=
  rows.flatMap fun (key, names) => names.map (key, ·)

theorem pairs_filter (rows : List (String × List String)) (key : String) :
    (pairs rows).filter (·.1 = key) = pairs (rows.filter (·.1 = key)) := by
  induction rows with
  | nil => rfl
  | cons entry rest ih =>
    obtain ⟨k, names⟩ := entry
    simp only [pairs, List.flatMap_cons, List.filter_append] at ih ⊢
    by_cases hk : k = key <;> simp [hk, ih, List.filter_map, Function.comp_def]

theorem pairs_filter_eq_row {rows : List (String × List String)} (hkeys : (Table.mk rows).keys.Nodup)
    (key : String) : pairs (rows.filter (·.1 = key)) = ((Table.mk rows).row key).map (key, ·) := by
  induction rows with
  | nil => rfl
  | cons entry rest ih =>
    obtain ⟨k, names⟩ := entry
    obtain ⟨hnotin, hrest⟩ := List.nodup_cons.mp hkeys
    rw [row_cons]
    by_cases hk : k = key
    · subst hk
      have hnone : rest.filter (·.1 = k) = [] := by
        refine List.filter_eq_nil_iff.mpr fun entry hentry => ?_
        simpa using fun heq => hnotin (List.mem_map.mpr ⟨entry, hentry, heq⟩)
      simp [pairs, hnone]
    · simpa [hk, Ne.symm hk] using ih hrest

theorem pairs_pairwise {rows : List (String × List String)}
    (hrows : rows.Pairwise fun a b => a.1 ≤ b.1) :
    (pairs rows).Pairwise fun a b => a.1 ≤ b.1 := by
  refine List.pairwise_flatMap.mpr ⟨fun entry _ => ?_, hrows.imp fun hle => ?_⟩
  · exact List.pairwise_map.mpr (List.pairwise_of_forall fun _ _ => String.le_refl entry.1)
  · rintro _ hfirst _ hsecond
    obtain ⟨_, _, rfl⟩ := List.mem_map.mp hfirst
    obtain ⟨_, _, rfl⟩ := List.mem_map.mp hsecond
    exact hle

/-- Sorted by their keys, the rows of a table give the log, sorted stably by its first ends. -/
theorem Lists.sorted_pairs (hlists : t.Lists log) :
    pairs (insertionSort (fun a b => decide (a.1 ≤ b.1)) t.rows) =
      log.mergeSort fun a b => decide (a.1 ≤ b.1) := by
  let firstEnd : String × String → String := (·.1)
  let keyOf : String × List String → String := (·.1)
  have hpairs := pairs_pairwise (insertionSort_pairwise_key keyOf t.rows)
  have hlog := mergeSort_pairwise_key firstEnd log
  refine eq_of_filter_eq firstEnd hpairs hlog fun key => ?_
  have hrow : pairs (t.rows.filter (·.1 = key)) = log.filter (·.1 = key) := by
    rw [pairs_filter_eq_row hlists.keysNodup, hlists.row_eq, List.map_map]
    refine (List.map_congr_left fun edge hedge => ?_).trans (List.map_id _)
    have hkey : edge.1 = key := by simpa using List.of_mem_filter hedge
    simp [← hkey]
  calc (pairs (insertionSort (fun a b => decide (a.1 ≤ b.1)) t.rows)).filter (·.1 = key)
      = pairs ((insertionSort (fun a b => decide (a.1 ≤ b.1)) t.rows).filter (·.1 = key)) :=
        pairs_filter _ key
    _ = log.filter (·.1 = key) := by rw [insertionSort_filter keyOf, hrow]
    _ = (log.mergeSort fun a b => decide (a.1 ≤ b.1)).filter (·.1 = key) :=
        (mergeSort_filter firstEnd key log).symm

theorem length_pairs (rows : List (String × List String)) :
    (pairs rows).length = (Table.mk rows).size := by
  induction rows with
  | nil => rfl
  | cons entry rest ih => simp_all [pairs, size]

theorem Lists.size_eq (hlists : t.Lists log) : t.size = log.length := by
  have hperm := insertionSort_perm (fun a b => decide (a.1 ≤ b.1)) t.rows
  calc t.size = (pairs t.rows).length := (length_pairs t.rows).symm
    _ = (pairs (insertionSort (fun a b => decide (a.1 ≤ b.1)) t.rows)).length :=
        (hperm.flatMap_right _).length_eq.symm
    _ = log.length := by rw [hlists.sorted_pairs, List.length_mergeSort]

end Table

namespace Graph

/-- The log after an insertion: an edge enters it when it is accepted for the first time. -/
def extendLog (log : List (String × String)) (refusal : Option Refusal) (edge : String × String) :
    List (String × String) :=
  if refusal = none ∧ edge ∉ log then log ++ [edge] else log

/-- The log of a history of calls on a new graph. -/
inductive Logged (allowCycles : Bool) : List (String × String) → Graph → Prop where
  | new : Logged allowCycles [] (empty allowCycles)
  | add {log : List (String × String)} {g : Graph} (hlog : Logged allowCycles log g)
      (depender dependent : String) :
      Logged allowCycles (extendLog log (g.add depender dependent).1 (depender, dependent))
        (g.add depender dependent).2
  | findCycle {log : List (String × String)} {g : Graph} (hlog : Logged allowCycles log g) :
      Logged allowCycles log g
  | audit {log : List (String × String)} {g after : Graph} (hlog : Logged allowCycles log g)
      (haudit : g.Audited after) : Logged allowCycles log after

/-- Both tables of a graph hold the edges of a log, the visibility with their ends exchanged. -/
structure Stores (g : Graph) (log : List (String × String)) : Prop where
  nodup : log.Nodup
  named : ∀ edge ∈ log, edge.1 ≠ "" ∧ edge.2 ≠ ""
  dependencies : g.dependencies.Lists log
  visibility : g.visibility.Lists (log.map Prod.swap)

variable {allowCycles : Bool} {g after : Graph} {log : List (String × String)}

theorem stores_empty (allowCycles : Bool) : (empty allowCycles).Stores [] where
  nodup := .nil
  named := by simp
  dependencies := Table.lists_nil
  visibility := Table.lists_nil

theorem Stores.mirrored (hstores : g.Stores log) : g.Mirrored where
  dependencies := hstores.dependencies.tight
  visibility := hstores.visibility.tight
  sides a b := by
    rw [hstores.visibility.edge_iff, hstores.dependencies.edge_iff]
    simp

theorem Stores.add (hstores : g.Stores log) (a b : String) :
    (g.add a b).2.Stores (extendLog log (g.add a b).1 (a, b)) := by
  have hadded := added_add g a b
  rcases hadded.connect_or_same hstores.mirrored with ⟨haccepted, hafter⟩ | ⟨hrefused, hafter⟩
  · rw [haccepted, hafter]
    by_cases hold : (a, b) ∈ log
    · have hedge := hstores.dependencies.edge_iff.mpr hold
      have hsame : g.connect a b = g := by
        simp only [connect, Table.insert_of_edge hedge,
          Table.insert_of_edge ((hstores.mirrored.sides a b).mpr hedge)]
      simpa [extendLog, hold, hsame] using hstores
    · have hnames : a ≠ "" ∧ b ≠ "" := by
        have hnot := mt hadded.eq_emptyName_iff.mpr (by simp [haccepted])
        exact not_or.mp hnot
      have hback : (b, a) ∉ log.map Prod.swap := by simpa using hold
      rw [extendLog, if_pos ⟨rfl, hold⟩]
      refine ⟨?_, ?_, hstores.dependencies.insert hold, ?_⟩
      · simpa [List.nodup_append] using ⟨hstores.nodup, fun x y hmem hx hy => hold (hx ▸ hy ▸ hmem)⟩
      · rintro edge hedge
        rcases List.mem_append.mp hedge with hedge | hedge
        · exact hstores.named edge hedge
        · exact List.mem_singleton.mp hedge ▸ hnames
      · rw [List.map_append]
        exact hstores.visibility.insert hback
  · rw [hafter, extendLog, if_neg fun h => hrefused h.1]
    exact hstores

theorem Logged.stores (hlog : Logged allowCycles log g) : g.Stores log := by
  induction hlog with
  | new => exact stores_empty allowCycles
  | add _ depender dependent ih => exact ih.add depender dependent
  | findCycle _ ih => exact ih
  | audit _ haudit ih =>
    obtain ⟨_, hdependencies, hvisibility⟩ := haudit.same_tables
    exact ⟨ih.nodup, ih.named, hdependencies ▸ ih.dependencies, hvisibility ▸ ih.visibility⟩

/-- The states that a new graph can get into are those with a log. -/
theorem reachable_iff_logged : Reachable allowCycles g ↔ ∃ log, Logged allowCycles log g := by
  constructor
  · intro hreach
    induction hreach with
    | refl => exact ⟨[], .new⟩
    | tail _ hcall ih =>
      obtain ⟨log, hlog⟩ := ih
      cases hcall with
      | add depender dependent => exact ⟨_, hlog.add depender dependent⟩
      | findCycle => exact ⟨log, hlog⟩
      | audit haudit => exact ⟨log, hlog.audit haudit⟩
  · rintro ⟨log, hlog⟩
    induction hlog with
    | new => exact reachable_empty allowCycles
    | add _ depender dependent ih => exact ih.add depender dependent
    | findCycle _ ih => exact ih
    | audit _ haudit ih => exact Relation.ReflTransGen.tail ih (.audit haudit)

/-- The units at the ends of the edges of a log. -/
def endpoints (log : List (String × String)) : List String :=
  log.flatMap fun edge => [edge.1, edge.2]

/-- Every question about a graph, answered from a log of its edges. -/
structure ReadsFrom (g : Graph) (log : List (String × String)) : Prop where
  nodup : log.Nodup
  named : ∀ edge ∈ log, edge.1 ≠ "" ∧ edge.2 ≠ ""
  dependents_eq : ∀ unit, g.dependents unit = (log.filter (·.1 = unit)).map (·.2)
  dependers_eq : ∀ unit, g.dependers unit = (log.filter (·.2 = unit)).map (·.1)
  dependerUnits_sorted : g.dependerUnits.Pairwise (· < ·)
  mem_dependerUnits : ∀ unit, unit ∈ g.dependerUnits ↔ unit ∈ log.map (·.1)
  dependencies_key : ∀ unit, unit ∈ g.dependencies.keys ↔ g.dependents unit ≠ []
  visibility_key : ∀ unit, unit ∈ g.visibility.keys ↔ g.dependers unit ≠ []
  units_sorted : g.units.Pairwise (· < ·)
  mem_units : ∀ unit, unit ∈ g.units ↔ unit ∈ endpoints log
  contains_iff : ∀ unit, g.contains unit = true ↔ unit ∈ endpoints log
  size_eq : g.size = (endpoints log).toFinset.card
  edgeCount_eq : g.edgeCount = log.length
  edges_eq : g.edges = log.mergeSort fun a b => decide (a.1 ≤ b.1)

theorem Stores.mem_units_iff (hstores : g.Stores log) (unit : String) :
    unit ∈ g.units ↔ unit ∈ endpoints log := by
  rw [mem_units, hstores.dependencies.mem_keys_iff, hstores.visibility.mem_keys_iff]
  simp only [endpoints, List.mem_map, List.mem_flatMap, List.mem_cons, List.not_mem_nil, or_false]
  constructor
  · rintro (⟨edge, hedge, rfl⟩ | ⟨_, ⟨edge, hedge, rfl⟩, rfl⟩)
    · exact ⟨edge, hedge, .inl rfl⟩
    · exact ⟨edge, hedge, .inr rfl⟩
  · rintro ⟨edge, hedge, rfl | rfl⟩
    · exact .inl ⟨edge, hedge, rfl⟩
    · exact .inr ⟨edge.swap, ⟨edge, hedge, rfl⟩, rfl⟩

/-- The store refines a log of accepted edges. At every point of a history, whatever was refused,
    repeated, looked for or audited on the way, the log has each edge once and without empty ends,
    and all that the graph tells about its edges and units is read off the log. -/
theorem Logged.readsFrom (hlog : Logged allowCycles log g) : g.ReadsFrom log := by
  have hstores := hlog.stores
  have hsorted : g.units.Pairwise (· < ·) := sortDistinct_pairwise_lt _
  exact {
    nodup := hstores.nodup
    named := hstores.named
    dependents_eq := hstores.dependencies.row_eq
    dependers_eq := fun unit => by
      rw [dependers, hstores.visibility.row_eq, List.filter_map, List.map_map]
      rfl
    dependerUnits_sorted := sortNames_pairwise_lt hstores.dependencies.keysNodup
    mem_dependerUnits := fun unit => mem_sortNames.trans hstores.dependencies.mem_keys_iff
    dependencies_key := fun _ => hstores.dependencies.tight.mem_keys_iff
    visibility_key := fun _ => hstores.visibility.tight.mem_keys_iff
    units_sorted := hsorted
    mem_units := hstores.mem_units_iff
    contains_iff := fun unit => contains_iff_mem_units.trans (hstores.mem_units_iff unit)
    size_eq := by
      have hsame : g.units.toFinset = (endpoints log).toFinset := by
        ext unit
        simpa using hstores.mem_units_iff unit
      rw [← hsame, List.toFinset_card_of_nodup hsorted.nodup, size]
    edgeCount_eq := hstores.dependencies.size_eq
    edges_eq := hstores.dependencies.sorted_pairs }

/-- A strict graph after an edge that it refused, one that it had already, and an audit. -/
def mendedRing : Graph :=
  ((((((empty false).add "b" "c").2.add "a" "b").2.add "c" "a").2.add "b" "c").2.auditInOrder
    ["b", "a"]).add "b" "a" |>.2.add "b" "d" |>.2

theorem Logged.readsFrom_mendedRing :
    Logged false [("b", "c"), ("a", "b"), ("b", "d")] mendedRing ∧
    mendedRing.ReadsFrom [("b", "c"), ("a", "b"), ("b", "d")] ∧
    mendedRing.edges = [("a", "b"), ("b", "c"), ("b", "d")] := by
  have hnew : Logged false [] (empty false) := .new
  have hring : Logged false [("b", "c"), ("a", "b")] _ :=
    (((hnew.add "b" "c").add "a" "b").add "c" "a").add "b" "c"
  have hlog : Logged false [("b", "c"), ("a", "b"), ("b", "d")] mendedRing :=
    ((hring.audit (audited_auditInOrder _ (show ["b", "a"].Perm _ by decide))).add "b" "a").add
      "b" "d"
  exact ⟨hlog, hlog.readsFrom, by decide⟩

end Graph

end ImportCycles
