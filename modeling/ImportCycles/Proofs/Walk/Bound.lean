import Mathlib.Algebra.BigOperators.Group.Finset.Piecewise
import Mathlib.Algebra.GroupWithZero.Nat
import Mathlib.Algebra.Order.BigOperators.Group.Finset
import ImportCycles.Proofs.Walk.Invariant

namespace ImportCycles

namespace Table

/-- The names at the end of some edge. -/
def targets (t : Table) : Finset String :=
  (t.rows.flatMap (·.2)).toFinset

theorem size_cons (key : String) (values : List String) (rest : List (String × List String)) :
    (Table.mk ((key, values) :: rest)).size = values.length + (Table.mk rest).size := by
  simp only [size, List.flatMap_cons, List.length_append]

theorem Edge.mem_targets {t : Table} {a b : String} (hedge : t.Edge a b) : b ∈ t.targets := by
  obtain ⟨rows⟩ := t
  unfold Edge at hedge
  induction rows with
  | nil => simp [row_nil] at hedge
  | cons entry rest ih =>
    obtain ⟨k, values⟩ := entry
    rw [row_cons] at hedge
    simp only [targets, List.flatMap_cons, List.mem_toFinset, List.mem_append] at ih ⊢
    split at hedge
    · exact .inl hedge
    · exact .inr (ih hedge)

theorem card_targets_le (t : Table) : t.targets.card ≤ t.size :=
  List.toFinset_card_le _

/-- The rows of different keys do not overlap. -/
theorem sum_length_row_le (t : Table) (names : Finset String) :
    ∑ name ∈ names, (t.row name).length ≤ t.size := by
  obtain ⟨rows⟩ := t
  induction rows with
  | nil => simp [row_nil]
  | cons entry rest ih =>
    obtain ⟨k, values⟩ := entry
    calc ∑ name ∈ names, ((Table.mk ((k, values) :: rest)).row name).length
        ≤ ∑ name ∈ names, ((if name = k then values.length else 0) +
            ((Table.mk rest).row name).length) := by
          refine Finset.sum_le_sum fun name _ => ?_
          rw [row_cons]
          split <;> omega
      _ = (∑ name ∈ names, if name = k then values.length else 0) +
            ∑ name ∈ names, ((Table.mk rest).row name).length := Finset.sum_add_distrib
      _ ≤ values.length + (Table.mk rest).size := by
          refine Nat.add_le_add ?_ ih
          rw [Finset.sum_ite_eq']
          split <;> omega
      _ = (Table.mk ((k, values) :: rest)).size := (size_cons k values rest).symm

end Table

namespace Walk

/-- The units that the walk may still enter. -/
def unvisited (edges : Table) (s : State) : Finset String :=
  edges.targets \ (s.path ++ s.finished).toFinset

/-- What is left to do: the names in the frames, the frames themselves, and the frames that the
    units not entered yet would bring. -/
def potential (edges : Table) (s : State) : Nat :=
  (s.frames.map fun frame => frame.length + 1).sum +
    ∑ unit ∈ unvisited edges s, ((edges.row unit).length + 1)

variable {mode : Mode} {edges : Table} {origin : String} {s next : State}

/-- Each step does a part of the work. Entering a unit moves its share from the second sum to the
    first. -/
theorem Invariant.potential_lt (hinv : Invariant edges origin s) (hmove : Move true edges s next) :
    potential edges next < potential edges s := by
  cases hmove with
  | leaveStart hpath hframes =>
    simp only [potential, unvisited, hframes, List.map_cons, List.sum_cons]
    omega
  | @retreat unit path outer hpath hframes =>
    have hsame : (path ++ unit :: s.finished).toFinset = (s.path ++ s.finished).toFinset := by
      rw [hpath]
      exact List.toFinset_eq_of_perm _ _ List.perm_middle
    simp only [potential, unvisited, hsame, hframes, List.map_cons, List.sum_cons]
    omega
  | pass hframes hold =>
    simp only [potential, unvisited, hframes, List.map_cons, List.sum_cons, List.length_cons]
    omega
  | close hframes hunknown hseen =>
    simp only [potential, unvisited, hframes, List.map_cons, List.sum_cons, List.length_cons]
    omega
  | @enter unit rest outer hframes hunknown hunseen hnew =>
    have haligned := hinv.aligned_cons hframes
    have hunvisited : unit ∈ unvisited edges s := by
      have htarget := haligned.edge_next.mem_targets
      simp only [unvisited, Finset.mem_sdiff, List.mem_toFinset, List.mem_append]
      exact ⟨htarget, fun h => h.elim (hinv.seen_eq ▸ hunseen) (hnew rfl)⟩
    have hremove : edges.targets \ (unit :: s.path ++ s.finished).toFinset =
        (unvisited edges s).erase unit := by
      ext name
      simp only [unvisited, Finset.mem_sdiff, Finset.mem_erase, List.mem_toFinset,
        List.cons_append, List.mem_cons, not_or]
      exact ⟨fun h => ⟨h.2.1, h.1, h.2.2⟩, fun h => ⟨h.2.1, h.1, h.2.2⟩⟩
    have hsplit := Finset.sum_erase_add (unvisited edges s)
      (fun unit => (edges.row unit).length + 1) hunvisited
    simp only [potential, hframes, List.map_cons, List.sum_cons, List.length_cons,
      length_frameOf]
    rw [unvisited, hremove]
    omega

theorem Invariant.run_halts {n : Nat} (hinv : Invariant edges origin s)
    (henough : potential edges s ≤ n) :
    step mode true edges (run mode true edges n s) = none := by
  induction n generalizing s with
  | zero =>
    refine step_eq_none_iff.mpr (.inr ?_)
    cases hframes : s.frames with
    | nil => simpa [run] using hframes
    | cons frame outer =>
      simp only [potential, hframes, List.map_cons, List.sum_cons] at henough
      omega
  | succ n ih =>
    unfold run
    split
    · assumption
    · rename_i next hstep
      have hmove := move_of_step hstep
      have hless := hinv.potential_lt hmove
      exact ih (hinv.move hmove) (by omega)

theorem potential_start_le (edges : Table) (known : List String) (origin : String) :
    potential edges (start edges known origin) ≤ bound edges := by
  have horigin := edges.sum_length_row_le {origin}
  have hunvisited : unvisited edges (start edges known origin) = edges.targets := by
    simp [unvisited, start]
  have hrows := edges.sum_length_row_le edges.targets
  have hcard := edges.card_targets_le
  simp only [potential, hunvisited, Finset.sum_add_distrib, ← Finset.card_eq_sum_ones]
  simp only [start, List.map_cons, List.map_nil, List.sum_cons, List.sum_nil, length_frameOf]
  simp only [Finset.sum_singleton] at horigin
  unfold bound
  omega

/-- The steps given to a walk are enough for every table, whatever is known and wherever it
    starts. -/
theorem explore_halts (mode : Mode) (edges : Table) (known : List String) (origin : String) :
    step mode true edges (explore mode edges known origin) = none :=
  (invariant_start edges known origin).run_halts (potential_start_le edges known origin)

end Walk

end ImportCycles
