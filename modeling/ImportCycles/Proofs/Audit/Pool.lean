import ImportCycles.Graph.Audit
import ImportCycles.Proofs.Audit.Findings
import ImportCycles.Proofs.Walk.Outcome

open Relation (TransGen ReflTransGen)

namespace ImportCycles

namespace Audit

/-- One walk of an audit, from the dependents of its root. -/
structure Task where
  root : String
  walk : Walk.State
  errand : Option Errand := none

namespace Task

/-- A task before its first step. -/
def start (edges : Table) (root : String) : Task :=
  { root, walk := Walk.start edges [] root }

/-- What a task can do next, and what it makes of the findings. It looks at one name of its walk, or
    goes on with the cycle that it has met. -/
inductive Step (edges : Table) (f : Findings) (task : Task) : Findings → Task → Prop where
  | look {walk : Walk.State} (hfree : task.errand = none)
      (hstep : Walk.step .everyCycle true edges
        { task.walk with known := f.knownCyclers.items, cycles := [] } = some walk) :
      Step edges f task f { task with walk, errand := walk.cycles.head?.map .makeKnown }
  | makeKnown {cycle : List String} (herrand : task.errand = some (.makeKnown cycle)) :
      Step edges f task (f.makeKnown cycle) { task with errand := some (.claim cycle) }
  | claimNew {cycle : List String} (herrand : task.errand = some (.claim cycle))
      (hnew : f.claims.contains cycle = false) :
      Step edges f task { f with claims := f.claims.insert cycle }
        { task with errand := some (.record cycle) }
  | claimOld {cycle : List String} (herrand : task.errand = some (.claim cycle))
      (hold : f.claims.contains cycle = true) :
      Step edges f task f { task with errand := none }
  | record {cycle : List String} (herrand : task.errand = some (.record cycle)) :
      Step edges f task { f with traces := f.traces.insert (Route.join cycle) }
        { task with errand := none }

/-- A task has ended when its walk has no frame left, and no errand either. -/
def Ended (task : Task) : Prop :=
  task.walk.frames = [] ∧ task.errand = none

/-- The walk of a task keeps its invariant, and all that it counts as known is known to all, or is
    just about to be. -/
structure Sound (edges : Table) (f : Findings) (task : Task) : Prop where
  walk : Walk.Invariant edges task.root task.walk
  known : ∀ unit ∈ task.walk.known, unit ∈ f.knownCyclers.items ∨
    ∃ cycle, task.errand = some (.makeKnown cycle) ∧ cycle.head? = some unit

variable {edges : Table} {f f' : Findings} {task task' : Task}

theorem sound_start (edges : Table) (f : Findings) (root : String) :
    (start edges root).Sound edges f :=
  ⟨Walk.invariant_start edges [] root, by simp [start, Walk.start]⟩

theorem Sound.mono (hsound : task.Sound edges f)
    (hsub : ∀ unit ∈ f.knownCyclers.items, unit ∈ f'.knownCyclers.items) : task.Sound edges f' :=
  ⟨hsound.walk, fun unit hunit => (hsound.known unit hunit).imp_left (hsub unit)⟩

theorem Step.known_subset (hstep : Step edges f task f' task') :
    ∀ unit ∈ f.knownCyclers.items, unit ∈ f'.knownCyclers.items := by
  intro unit hunit
  cases hstep with
  | look => exact hunit
  | makeKnown => exact Findings.mem_makeKnown.mpr (.inl hunit)
  | claimNew => exact hunit
  | claimOld => exact hunit
  | record => exact hunit

theorem Step.root_eq (hstep : Step edges f task f' task') : task'.root = task.root := by
  cases hstep <;> rfl

/-- A task without errand counts nothing as known that is not known to all. -/
theorem Sound.known_subset (hsound : task.Sound edges f) (hfree : task.errand = none) :
    ∀ unit ∈ task.walk.known, unit ∈ f.knownCyclers.items := by
  intro unit hunit
  rcases hsound.known unit hunit with hknown | ⟨cycle, herrand, _⟩
  · exact hknown
  · rw [hfree] at herrand
    cases herrand

/-- Looking at the shared known units does not disturb the walk of a task without errand. -/
theorem Sound.learn (hsound : task.Sound edges f) (hfree : task.errand = none) :
    Walk.Invariant edges task.root
      { task.walk with known := f.knownCyclers.items, cycles := [] } :=
  hsound.walk.learn (hsound.known_subset hfree) []

theorem Sound.step (hsound : task.Sound edges f) (hstep : Step edges f task f' task') :
    task'.Sound edges f' := by
  cases hstep with
  | @look walk hfree hstep =>
    have hinv := hsound.learn hfree
    have hmove := Walk.move_of_step hstep
    refine ⟨hinv.move hmove, fun unit hunit => ?_⟩
    rcases hinv.report hmove with ⟨hsame, _⟩ | ⟨offender, cycle, hlearnt, hcycles, hhead, _⟩
    · change unit ∈ walk.known at hunit
      rw [hsame] at hunit
      exact .inl hunit
    · change unit ∈ walk.known at hunit
      rw [hlearnt] at hunit
      rcases List.mem_cons.mp hunit with rfl | hunit
      · exact .inr ⟨cycle, by simp [hcycles], hhead⟩
      · exact .inl hunit
  | @makeKnown cycle herrand =>
    refine ⟨hsound.walk, fun unit hunit => .inl (Findings.mem_makeKnown.mpr ?_)⟩
    rcases hsound.known unit hunit with hknown | ⟨other, hother, hhead⟩
    · exact .inl hknown
    · rw [herrand] at hother
      cases hother
      exact .inr hhead
  | claimNew herrand => exact ⟨hsound.walk, by simpa [herrand] using hsound.known⟩
  | claimOld herrand => exact ⟨hsound.walk, by simpa [herrand] using hsound.known⟩
  | record herrand => exact ⟨hsound.walk, by simpa [herrand] using hsound.known⟩

/-- Whatever the errands of the other tasks are, a step of one task keeps the findings sound. -/
theorem Step.findings_sound {others : Errand → Prop} (hstep : Step edges f task f' task')
    (htask : task.Sound edges f)
    (hsound : f.Sound edges fun errand => task.errand = some errand ∨ others errand) :
    f'.Sound edges fun errand => task'.errand = some errand ∨ others errand := by
  cases hstep with
  | @look walk hfree hstep =>
    rcases (htask.learn hfree).report (Walk.move_of_step hstep) with
      ⟨_, hcycles⟩ | ⟨_, cycle, _, hcycles, _, hcycle⟩
    · simpa [hcycles, hfree] using hsound
    · simp only [hcycles, List.nil_append, List.head?_cons, Option.map_some]
      simp only [hfree, reduceCtorEq, false_or] at hsound
      exact hsound.meet hcycle
  | makeKnown herrand => exact (herrand ▸ hsound).makeKnown
  | claimNew herrand hnew => exact (herrand ▸ hsound).claimNew hnew
  | claimOld herrand hold => exact (herrand ▸ hsound).claimOld hold
  | record herrand => exact (herrand ▸ hsound).record

end Task

/-- The tasks of an audit, and what they have found together. -/
structure Pool where
  findings : Findings
  tasks : List Task

namespace Pool

/-- Any one of the tasks makes a step. -/
inductive Step (edges : Table) : Pool → Pool → Prop where
  | advance {f f' : Findings} {task task' : Task} (before after : List Task)
      (hstep : task.Step edges f f' task') :
      Step edges ⟨f, before ++ task :: after⟩ ⟨f', before ++ task' :: after⟩

/-- The errands of the tasks. -/
def Pending (tasks : List Task) (errand : Errand) : Prop :=
  ∃ task ∈ tasks, task.errand = some errand

/-- What every step of a pool preserves. -/
structure Sound (edges : Table) (roots : List String) (pool : Pool) : Prop where
  roots_eq : pool.tasks.map (·.root) = roots
  tasks : ∀ task ∈ pool.tasks, task.Sound edges pool.findings
  findings : pool.findings.Sound edges (Pending pool.tasks)

variable {edges : Table} {roots : List String} {pool next : Pool}

theorem pending_append_cons (before after : List Task) (task : Task) (errand : Errand) :
    Pending (before ++ task :: after) errand ↔
      task.errand = some errand ∨ Pending (before ++ after) errand := by
  simp only [Pending, List.mem_append, List.mem_cons, or_and_right, exists_or, exists_eq_left]
  exact or_left_comm

theorem Sound.step (hsound : pool.Sound edges roots) (hstep : Step edges pool next) :
    next.Sound edges roots := by
  cases hstep with
  | @advance f f' task task' before after hstep =>
    obtain ⟨hroots, htasks, hfindings⟩ := hsound
    have htask : task.Sound edges f := htasks task (by simp)
    refine ⟨?_, fun other hother => ?_, ?_⟩
    · simpa [hstep.root_eq] using hroots
    · rcases List.mem_append.mp hother with hother | hother
      · exact (htasks other (by simp [hother])).mono hstep.known_subset
      · rcases List.mem_cons.mp hother with rfl | hother
        · exact htask.step hstep
        · exact (htasks other (by simp [hother])).mono hstep.known_subset
    · have hsplit := hfindings.congr fun errand =>
        (pending_append_cons before after task errand).symm
      exact (hstep.findings_sound htask hsplit).congr fun errand =>
        pending_append_cons before after task' errand

theorem Sound.steps (hsound : pool.Sound edges roots)
    (hsteps : ReflTransGen (Step edges) pool next) : next.Sound edges roots := by
  induction hsteps with
  | refl => exact hsound
  | tail _ hstep ih => exact ih.step hstep

theorem sound_start {f : Findings} (hsound : f.Sound edges fun _ => False) (roots : List String) :
    Sound edges roots ⟨f, roots.map (Task.start edges)⟩ where
  roots_eq := by simp [Function.comp_def, Task.start]
  tasks := by
    intro task htask
    obtain ⟨root, _, rfl⟩ := List.mem_map.mp htask
    exact Task.sound_start edges f root
  findings := by
    refine hsound.congr fun errand => ⟨?_, False.elim⟩
    rintro ⟨task, htask, herrand⟩
    obtain ⟨root, _, rfl⟩ := List.mem_map.mp htask
    cases herrand

/-- When all tasks have ended, no cycle of unknown units runs through any of their roots. -/
theorem Sound.no_loop (hsound : pool.Sound edges roots) (hended : ∀ task ∈ pool.tasks, task.Ended)
    {root : String} (hroot : root ∈ roots) :
    ¬ TransGen (Walk.OpenEdge edges pool.findings.knownCyclers.items) root root := by
  rw [← hsound.roots_eq] at hroot
  obtain ⟨task, htask, rfl⟩ := List.mem_map.mp hroot
  obtain ⟨hframes, hfree⟩ := hended task htask
  have hsound := hsound.tasks task htask
  intro hloop
  have hweaker : TransGen (Walk.OpenEdge edges task.walk.known) task.root task.root :=
    TransGen.mono (fun _ _ hopen => hopen.mono (hsound.known_subset hfree)) _ _ hloop
  exact hsound.walk.no_loop hframes hweaker hweaker

theorem Sound.findings_of_ended (hsound : pool.Sound edges roots)
    (hended : ∀ task ∈ pool.tasks, task.Ended) : pool.findings.Sound edges fun _ => False := by
  refine hsound.findings.congr fun errand => ⟨False.elim, fun ⟨task, htask, herrand⟩ => ?_⟩
  rw [(hended task htask).2] at herrand
  cases herrand

end Pool

end Audit

namespace Graph

open Audit

/-- An audit of `g`, with one task for each depender, can leave `after` behind. -/
def Audited (g after : Graph) : Prop :=
  ∃ (roots : List String) (pool : Pool), roots.Perm g.dependerUnits ∧
    ReflTransGen (Pool.Step g.dependencies)
      ⟨g.findings, roots.map (Task.start g.dependencies)⟩ pool ∧
    (∀ task ∈ pool.tasks, task.Ended) ∧ after = { g with findings := pool.findings }

end Graph

end ImportCycles
