import ImportCycles.Proofs.Audit.Pool

open Relation (ReflTransGen)

namespace ImportCycles

namespace Walk

/-- The units that a step puts on the path, newest first. -/
def entering (s next : State) : List String :=
  next.path.take (next.path.length - s.path.length)

/-- A walk that has taken `steps` steps and entered the units `entered`, newest first. The other
    walks of an audit may make units known in between, and the cycles that it has met may be taken
    over; a search for the first cycle is left alone. -/
inductive Underway (mode : Mode) (edges : Table) (known : List String) (origin : String) :
    Nat → List String → State → Prop where
  | start : Underway mode edges known origin 0 [] (start edges known origin)
  | step {steps : Nat} {entered : List String} {s next : State}
      (hbefore : Underway mode edges known origin steps entered s)
      (hstep : step mode true edges s = some next) :
      Underway mode edges known origin (steps + 1) (entering s next ++ entered) next
  | learn {steps : Nat} {entered : List String} {s : State} {more : List String}
      {cycles : List (List String)} (hbefore : Underway mode edges known origin steps entered s)
      (haudit : mode = .everyCycle) (hsub : ∀ unit ∈ s.known, unit ∈ more) :
      Underway mode edges known origin steps entered { s with known := more, cycles }

/-- What holds of a walk whenever it looks at its next name, and after its last one. The path is
    read from its oldest unit on. -/
structure Orderly (edges : Table) (origin : String) (s : State) : Prop where
  frames : s.frames ≠ [] → s.frames.length = s.path.length + 1
  ended : s.frames = [] →
    s.path = [] ∧ ∀ name, edges.Edge origin name → name ∈ s.finished ∨ name ∈ s.known
  distinct : s.path.Nodup
  seen : s.seen = s.path
  follows : (origin :: s.path.reverse).IsChain edges.Edge
  apart : ∀ unit ∈ s.finished, unit ∉ s.seen
  closed : ∀ unit ∈ s.finished, ∀ name, edges.Edge unit name → name ∈ s.finished ∨ name ∈ s.known

variable {mode : Mode} {edges : Table} {known entered : List String} {origin : String} {steps : Nat}
  {s next : State}

theorem Invariant.orderly (hinv : Invariant edges origin s) : Orderly edges origin s where
  frames hframes := (hinv.aligned hframes).length_frames
  ended hframes := by
    obtain ⟨hpath, hcovered⟩ := hinv.ended hframes
    refine ⟨hpath, fun name hedge => ?_⟩
    exact ((hcovered.others name hedge).resolve_left List.not_mem_nil).symm
  distinct := (List.nodup_append.mp hinv.enteredOnce).1
  seen := hinv.seen_eq
  follows := by
    by_cases hframes : s.frames = []
    · rw [(hinv.ended hframes).1]
      exact .singleton origin
    · simpa using List.isChain_reverse.mpr (hinv.aligned hframes).isChain_concat
  apart unit hunit hseen := by
    rw [hinv.seen_eq] at hseen
    exact List.disjoint_of_nodup_append hinv.enteredOnce hseen hunit
  closed unit hunit name hedge := by
    by_cases hknown : name ∈ s.known
    · exact .inr hknown
    · exact .inl (hinv.settled.edge hunit ⟨hedge, hknown⟩)

/-- What a step enters comes in addition to the units entered before, which stay on the path until
    they are finished. -/
theorem Move.entering_append_perm (hmove : Move true edges s next) :
    (entering s next ++ (s.path ++ s.finished)).Perm (next.path ++ next.finished) := by
  cases hmove with
  | leaveStart => simp [entering]
  | @retreat unit path outer hpath hframes =>
    simpa [entering, hpath] using List.perm_middle.symm
  | pass => simp [entering]
  | close => simp [entering]
  | enter => simp [entering]

/-- No unit becomes known before the first cycle is met. -/
theorem Invariant.known_eq_of_cycles_eq_nil (hinv : Invariant edges origin s)
    (hmove : Move true edges s next) (hcycles : next.cycles = []) :
    s.cycles = [] ∧ next.known = s.known := by
  rcases hinv.report hmove with ⟨hknown, hsame⟩ | ⟨_, cycle, _, hmet, _⟩
  · exact ⟨hsame ▸ hcycles, hknown⟩
  · simp [hmet] at hcycles

theorem Underway.invariant (hwalk : Underway mode edges known origin steps entered s) :
    Invariant edges origin s := by
  induction hwalk with
  | start => exact invariant_start edges known origin
  | step _ hstep ih => exact ih.move (move_of_step hstep)
  | learn _ _ hsub ih => exact ih.learn hsub _

theorem Underway.entered_perm (hwalk : Underway mode edges known origin steps entered s) :
    entered.Perm (s.path ++ s.finished) := by
  induction hwalk with
  | start => exact .nil
  | step _ hstep ih => exact (ih.append_left _).trans (move_of_step hstep).entering_append_perm
  | learn _ _ _ ih => exact ih

/-- Each step costs something of what the walk had to do at the start. What becomes known meanwhile
    adds nothing to it. -/
theorem Underway.steps_add_potential_le
    (hwalk : Underway mode edges known origin steps entered s) :
    steps + potential edges s ≤ bound edges := by
  induction hwalk with
  | start => simpa using potential_start_le edges known origin
  | step hbefore hstep ih =>
    have hless := hbefore.invariant.potential_lt (move_of_step hstep)
    omega
  | learn _ _ _ ih => exact ih

theorem Underway.known_eq (hwalk : Underway .firstCycle edges known origin steps entered s)
    (hcycles : s.cycles = []) : s.known = known := by
  induction hwalk with
  | start => rfl
  | step hbefore hstep ih =>
    obtain ⟨hnone, hknown⟩ :=
      hbefore.invariant.known_eq_of_cycles_eq_nil (move_of_step hstep) hcycles
    exact hknown.trans (ih hnone)
  | learn _ haudit => cases haudit

/-- A walk that is left alone is under way until it ends. -/
theorem Underway.run (hwalk : Underway mode edges known origin steps entered s) (n : Nat) :
    ∃ steps entered,
      Underway mode edges known origin steps entered (run mode true edges n s) := by
  induction n generalizing steps entered s with
  | zero => exact ⟨steps, entered, hwalk⟩
  | succ n ih =>
    unfold Walk.run
    split
    · exact ⟨steps, entered, hwalk⟩
    · rename_i hstep
      exact ih (hwalk.step hstep)

end Walk

namespace Audit

open Walk

variable {edges : Table} {f f' : Findings} {task task' : Task}

/-- The walk of a task is under way, and the task has told the others what it knows. -/
structure Task.Walks (edges : Table) (f : Findings) (task : Task) : Prop where
  sound : task.Sound edges f
  underway : ∃ steps entered, Underway .everyCycle edges [] task.root steps entered task.walk

/-- A task without errand walks on with all that has become known, whoever found it. -/
theorem Task.Walks.learn (hwalks : task.Walks edges f) (hfree : task.errand = none) :
    ∃ steps entered, Underway .everyCycle edges [] task.root steps entered
      { task.walk with known := f.knownCyclers.items, cycles := [] } := by
  obtain ⟨steps, entered, hwalk⟩ := hwalks.underway
  exact ⟨steps, entered, hwalk.learn rfl (hwalks.sound.known_subset hfree)⟩

theorem Task.Walks.step (hwalks : task.Walks edges f) (hstep : Step edges f task f' task') :
    task'.Walks edges f' := by
  refine ⟨hwalks.sound.step hstep, ?_⟩
  cases hstep with
  | look hfree hstep =>
    obtain ⟨steps, entered, hwalk⟩ := hwalks.learn hfree
    exact ⟨_, _, hwalk.step hstep⟩
  | makeKnown => exact hwalks.underway
  | claimNew => exact hwalks.underway
  | claimOld => exact hwalks.underway
  | record => exact hwalks.underway

theorem Pool.walks {pool next : Pool} (hsteps : ReflTransGen (Step edges) pool next)
    (hwalks : ∀ task ∈ pool.tasks, task.Walks edges pool.findings) :
    ∀ task ∈ next.tasks, task.Walks edges next.findings := by
  induction hsteps with
  | refl => exact hwalks
  | tail _ hstep ih =>
    cases hstep with
    | advance before after hstep =>
      have hother : ∀ other : Task, other.Walks edges _ → other.Walks edges _ :=
        fun other hwalks => ⟨hwalks.sound.mono hstep.known_subset, hwalks.underway⟩
      simp only [List.forall_mem_append, List.forall_mem_cons] at ih ⊢
      obtain ⟨hbefore, htask, hafter⟩ := ih
      exact ⟨fun other h => hother other (hbefore other h), htask.step hstep,
        fun other h => hother other (hafter other h)⟩

end Audit

namespace Walk

/-- The loop of a walk, in both modes, from any start and in any graph, however cyclic. Whenever the
    walk looks at its next name, frames, path and finished units fit together. No unit is entered
    twice, the start included, and the steps are bounded, so that the loop ends. While a search has
    met no cycle, nothing has become known by it. Among these walks are those that are left alone,
    and those of the tasks of an audit with all that the tasks have made known so far. -/
theorem loop_orderly (edges : Table) (origin : String) :
    (∀ mode known steps entered s, Underway mode edges known origin steps entered s →
      Orderly edges origin s ∧ entered.Nodup ∧ entered.Perm (s.path ++ s.finished) ∧
        steps ≤ bound edges ∧ (mode = .firstCycle → s.cycles = [] → s.known = known)) ∧
    (∀ mode known, step mode true edges (explore mode edges known origin) = none ∧
      ∀ n, ∃ steps entered, Underway mode edges known origin steps entered
        (run mode true edges n (start edges known origin))) ∧
    (∀ (f : Findings) (roots : List String) (pool : Audit.Pool),
      ReflTransGen (Audit.Pool.Step edges) ⟨f, roots.map (Audit.Task.start edges)⟩ pool →
      ∀ task ∈ pool.tasks, task.root = origin → task.errand = none →
        ∃ steps entered, Underway .everyCycle edges [] origin steps entered
          { task.walk with known := pool.findings.knownCyclers.items, cycles := [] }) := by
  refine ⟨fun mode known steps entered s hwalk => ?_, fun mode known => ?_,
    fun f roots pool hsteps task htask hroot hfree => ?_⟩
  · have hinv := hwalk.invariant
    have hperm := hwalk.entered_perm
    have hcost := hwalk.steps_add_potential_le
    refine ⟨hinv.orderly, hperm.nodup_iff.mpr hinv.enteredOnce, hperm, by omega, ?_⟩
    rintro rfl hcycles
    exact hwalk.known_eq hcycles
  · exact ⟨explore_halts mode edges known origin, fun n => Underway.start.run n⟩
  · have hstart : ∀ task ∈ roots.map (Audit.Task.start edges), Audit.Task.Walks edges f task := by
      intro task htask
      obtain ⟨root, -, rfl⟩ := List.mem_map.mp htask
      exact ⟨Audit.Task.sound_start edges f root, 0, [], .start⟩
    rw [← hroot]
    exact (Audit.Pool.walks hsteps hstart task htask).learn hfree

/-- Two cycles that meet in `b`. -/
def sharedRings : Table :=
  { rows := [("a", ["b"]), ("b", ["c", "a"]), ("c", ["b"])] }

/-- Where a walk from `a` stands that has entered its own start, closed a cycle, and passed over `c`,
    which another walk has made known. -/
def passedOver : State :=
  { path := ["b"], seen := ["b"], finished := ["a"], frames := [[], []], known := ["c", "b"] }

theorem loop_orderly_sharedRings :
    ∃ steps entered, Underway .everyCycle sharedRings [] "a" steps entered passedOver ∧
      Orderly sharedRings "a" passedOver ∧ entered.Perm ["b", "a"] ∧ steps ≤ bound sharedRings := by
  let closed := run .everyCycle true sharedRings 4 (start sharedRings [] "a")
  have hstart : Underway .everyCycle sharedRings [] "a" 0 [] (start sharedRings [] "a") := .start
  obtain ⟨_, _, hclosed⟩ := hstart.run 4
  have hlearnt : Underway .everyCycle sharedRings [] "a" _ _
      { closed with known := ["c", "b"], cycles := [] } := hclosed.learn rfl (by decide)
  obtain ⟨steps, entered, hwalk⟩ := hlearnt.run 1
  have hpassed : run .everyCycle true sharedRings 1
      { closed with known := ["c", "b"], cycles := [] } = passedOver := by decide
  rw [hpassed] at hwalk
  obtain ⟨horderly, -, hperm, hbound, -⟩ := (loop_orderly sharedRings "a").1 _ _ _ _ _ hwalk
  exact ⟨steps, entered, hwalk, horderly, hperm, hbound⟩

end Walk

end ImportCycles
