import Mathlib.Logic.Relation
import ImportCycles.Proofs.Sorted
import ImportCycles.Proofs.Graph.Table
import ImportCycles.Graph.Walk

open Relation (ReflTransGen)

namespace ImportCycles

namespace Walk

@[simp] theorem mem_frameOf {edges : Table} {unit name : String} :
    name ∈ frameOf edges unit ↔ edges.Edge unit name :=
  mem_sortNames

@[simp] theorem length_frameOf (edges : Table) (unit : String) :
    (frameOf edges unit).length = (edges.row unit).length :=
  length_sortNames _

/-- Whether the walk has met what it was looking for and takes no further step. -/
def Stopped (mode : Mode) (s : State) : Prop :=
  mode = .firstCycle ∧ s.cycles ≠ []

/-- All that one step of a walk can do. -/
inductive Move (prune : Bool) (edges : Table) (s : State) : State → Prop where
  | leaveStart {outer : List (List String)} (hpath : s.path = [])
      (hframes : s.frames = [] :: outer) : Move prune edges s { s with frames := outer }
  | retreat {unit : String} {path : List String} {outer : List (List String)}
      (hpath : s.path = unit :: path) (hframes : s.frames = [] :: outer) :
      Move prune edges s
        { s with path, seen := s.seen.erase unit, finished := unit :: s.finished, frames := outer }
  | pass {unit : String} {rest : List String} {outer : List (List String)}
      (hframes : s.frames = (unit :: rest) :: outer)
      (hold : unit ∈ s.known ∨ (unit ∉ s.seen ∧ prune = true ∧ unit ∈ s.finished)) :
      Move prune edges s { s with frames := rest :: outer }
  | close {unit : String} {rest : List String} {outer : List (List String)}
      (hframes : s.frames = (unit :: rest) :: outer) (hunknown : unit ∉ s.known)
      (hseen : unit ∈ s.seen) :
      Move prune edges s
        { s with
          frames := rest :: outer
          known := unit :: s.known
          cycles := s.cycles ++ [closing unit s.path] }
  | enter {unit : String} {rest : List String} {outer : List (List String)}
      (hframes : s.frames = (unit :: rest) :: outer) (hunknown : unit ∉ s.known)
      (hunseen : unit ∉ s.seen) (hnew : prune = true → unit ∉ s.finished) :
      Move prune edges s
        { s with
          path := unit :: s.path
          seen := unit :: s.seen
          frames := frameOf edges unit :: rest :: outer }

variable {mode : Mode} {prune : Bool} {edges : Table} {s next : State}

theorem move_of_step (hstep : step mode prune edges s = some next) : Move prune edges s next := by
  unfold step at hstep
  split at hstep
  · cases hstep
  · split at hstep
    · cases hstep
    · rename_i outer hframes
      injection hstep with hnext
      subst hnext
      unfold backOut
      split
      · rename_i hpath
        exact .leaveStart hpath hframes
      · rename_i unit path hpath
        exact .retreat hpath hframes
    · rename_i unit rest outer hframes
      injection hstep with hnext
      subst hnext
      unfold visit
      split
      · rename_i hknown
        exact .pass hframes (.inl hknown)
      · rename_i hunknown
        split
        · rename_i hseen
          exact .close hframes hunknown hseen
        · rename_i hunseen
          split
          · rename_i hpruned
            simp only [Bool.and_eq_true, List.contains_iff_mem] at hpruned
            exact .pass hframes (.inr ⟨hunseen, hpruned⟩)
          · rename_i hkept
            simp only [Bool.and_eq_true, List.contains_iff_mem, not_and] at hkept
            exact .enter hframes hunknown hunseen hkept

theorem step_of_move (hgoing : ¬ Stopped mode s) (hmove : Move prune edges s next) :
    step mode prune edges s = some next := by
  unfold Stopped at hgoing
  cases hmove with
  | leaveStart hpath hframes => simp [step, if_neg hgoing, hframes, backOut, hpath]
  | retreat hpath hframes => simp [step, if_neg hgoing, hframes, backOut, hpath]
  | pass hframes hold =>
    rcases hold with hknown | ⟨hunseen, hprune, hfinished⟩
    · simp [step, if_neg hgoing, hframes, visit, hknown]
    · simp [step, if_neg hgoing, hframes, visit, hunseen, hprune, hfinished]
  | close hframes hunknown hseen =>
    simp [step, if_neg hgoing, hframes, visit, hunknown, hseen]
  | enter hframes hunknown hunseen hnew =>
    have hkept : ¬ (prune = true ∧ _) := fun h => hnew h.1 h.2
    simp [step, if_neg hgoing, hframes, visit, hunknown, hunseen, hkept]

theorem step_eq_none_iff :
    step mode prune edges s = none ↔ Stopped mode s ∨ s.frames = [] := by
  unfold step Stopped
  split
  · rename_i hstopped
    simp [hstopped]
  · rename_i hgoing
    cases hframes : s.frames with
    | nil => simp
    | cons frame outer => cases frame <;> simp [hgoing]

/-- A step does not depend on the order of the known units, nor on the cycles reported so far: it
    adds the same to other lists. -/
theorem Move.relabel (hmove : Move prune edges s next) {known : List String}
    (hknown : ∀ unit, unit ∈ known ↔ unit ∈ s.known) (cycles : List (List String)) :
    (next.known = s.known ∧ next.cycles = s.cycles ∧
      Move prune edges { s with known, cycles } { next with known, cycles }) ∨
    ∃ unit cycle, next.known = unit :: s.known ∧ next.cycles = s.cycles ++ [cycle] ∧
      cycle.head? = some unit ∧
      Move prune edges { s with known, cycles }
        { next with known := unit :: known, cycles := cycles ++ [cycle] } := by
  cases hmove with
  | leaveStart hpath hframes => exact .inl ⟨rfl, rfl, .leaveStart hpath hframes⟩
  | retreat hpath hframes => exact .inl ⟨rfl, rfl, .retreat hpath hframes⟩
  | pass hframes hold => exact .inl ⟨rfl, rfl, .pass hframes (hold.imp_left (hknown _).mpr)⟩
  | @close unit _ _ hframes hunknown hseen =>
    exact .inr ⟨unit, closing unit s.path, rfl, rfl, rfl,
      .close hframes (fun h => hunknown ((hknown unit).mp h)) hseen⟩
  | @enter unit _ _ hframes hunknown hunseen hnew =>
    exact .inl ⟨rfl, rfl,
      .enter hframes (fun h => hunknown ((hknown unit).mp h)) hunseen hnew⟩

/-- A walk gets from one state to another by steps of its own. -/
def Reaches (mode : Mode) (prune : Bool) (edges : Table) : State → State → Prop :=
  ReflTransGen fun s next => step mode prune edges s = some next

theorem Reaches.of_move (hgoing : ¬ Stopped mode s) (hmove : Move prune edges s next) :
    Reaches mode prune edges s next :=
  .single (step_of_move hgoing hmove)

theorem reaches_run (mode : Mode) (prune : Bool) (edges : Table) (n : Nat) (s : State) :
    Reaches mode prune edges s (run mode prune edges n s) := by
  induction n generalizing s with
  | zero => exact .refl
  | succ n ih =>
    unfold run
    split
    · exact .refl
    · rename_i next hstep
      exact (ih next).head hstep

theorem run_of_halted (hhalted : step mode prune edges s = none) (n : Nat) :
    run mode prune edges n s = s := by
  cases n with
  | zero => rfl
  | succ n => simp only [run, hhalted]

/-- A walk that ends ends in the same state under every sufficient number of steps. -/
theorem Reaches.exists_run (hreach : Reaches mode prune edges s next)
    (hhalted : step mode prune edges next = none) :
    ∃ n, ∀ m ≥ n, run mode prune edges m s = next := by
  induction hreach using ReflTransGen.head_induction_on with
  | refl => exact ⟨0, fun m _ => run_of_halted hhalted m⟩
  | head hstep _ ih =>
    obtain ⟨n, hrun⟩ := ih
    refine ⟨n + 1, fun m hm => ?_⟩
    cases m with
    | zero => omega
    | succ m =>
      simp only [run, hstep]
      exact hrun m (by omega)

end Walk

end ImportCycles
