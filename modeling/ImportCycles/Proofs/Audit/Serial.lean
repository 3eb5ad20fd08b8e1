import ImportCycles.Proofs.Audit.Pool

open Relation (ReflTransGen)

namespace ImportCycles

namespace Audit

/-- One task moves while all others wait. -/
inductive Task.Steps (edges : Table) (f : Findings) (task : Task) : Findings → Task → Prop where
  | refl : Steps edges f task f task
  | tail {f₁ f₂ : Findings} {task₁ task₂ : Task} (hsteps : Steps edges f task f₁ task₁)
      (hstep : Step edges f₁ task₁ f₂ task₂) : Steps edges f task f₂ task₂

/-- The findings after a walk from `root` that nobody disturbs. -/
def afterWalk (edges : Table) (f : Findings) (root : String) : Findings :=
  (Walk.cyclesFrom edges f.knownCyclers.items root).foldl Findings.claim f

/-- The task stands where an undisturbed walk stands that began with the findings `f₀`, and has
    claimed what this walk has reported. -/
structure Task.Follows (f₀ : Findings) (s : Walk.State) (f : Findings) (task : Task) : Prop where
  free : task.errand = none
  claimed : f = s.cycles.foldl Findings.claim f₀
  walk : ∃ known cycles, task.walk = { s with known, cycles }
  known : ∀ unit, unit ∈ f.knownCyclers.items ↔ unit ∈ s.known

variable {edges : Table} {f f₀ f₁ f₂ : Findings} {task task₁ task₂ : Task} {s next : Walk.State}

theorem Task.Steps.trans (hfirst : Steps edges f task f₁ task₁)
    (hlater : Steps edges f₁ task₁ f₂ task₂) : Steps edges f task f₂ task₂ := by
  induction hlater with
  | refl => exact hfirst
  | tail _ hstep ih => exact ih.tail hstep

theorem Task.Steps.pool (hsteps : Steps edges f task f₁ task₁) (before after : List Task) :
    ReflTransGen (Pool.Step edges) ⟨f, before ++ task :: after⟩ ⟨f₁, before ++ task₁ :: after⟩ := by
  induction hsteps with
  | refl => exact .refl
  | tail _ hstep ih => exact ih.tail (.advance before after hstep)

/-- The three errands about a cycle, done one right after another, claim it. -/
theorem Task.steps_claim {cycle : List String} (herrand : task.errand = some (.makeKnown cycle)) :
    Steps edges f task (f.claim cycle) { task with errand := none } := by
  have hfirst : Steps edges f task (f.makeKnown cycle)
      { task with errand := some (.claim cycle) } := .tail .refl (.makeKnown herrand)
  cases hold : f.claims.contains cycle with
  | true =>
    have hclaim : f.claim cycle = f.makeKnown cycle := by rw [Findings.claim_eq, if_pos hold]
    rw [hclaim]
    exact hfirst.tail (.claimOld rfl (by simpa using hold))
  | false =>
    have hclaim : f.claim cycle =
        { f.makeKnown cycle with
          claims := (f.makeKnown cycle).claims.insert cycle
          traces := (f.makeKnown cycle).traces.insert (Route.join cycle) } := by
      rw [Findings.claim_eq, if_neg (by simp [hold]), Findings.makeKnown_claims,
        Findings.makeKnown_traces]
    rw [hclaim]
    exact (hfirst.tail (.claimNew rfl (by simpa using hold))).tail (.record rfl)

theorem Task.Follows.move (hfollows : Follows f₀ s f task) (hmove : Walk.Move true edges s next) :
    ∃ f₁ task₁, Steps edges f task f₁ task₁ ∧ Follows f₀ next f₁ task₁ := by
  obtain ⟨hfree, hclaimed, ⟨known, cycles, hwalk⟩, hknown⟩ := hfollows
  have hgoing : ∀ s, ¬ Walk.Stopped .everyCycle s := fun s h => by cases h.1
  have hview : { task.walk with known := f.knownCyclers.items, cycles := [] } =
      { s with known := f.knownCyclers.items, cycles := [] } := by rw [hwalk]
  rcases hmove.relabel hknown [] with
    ⟨hsame, hcycles, hlook⟩ | ⟨unit, cycle, hlearnt, hcycles, hhead, hlook⟩
  · have hstep := Walk.step_of_move (hgoing _) hlook
    rw [← hview] at hstep
    refine ⟨f, _, .tail .refl (.look hfree hstep), ⟨rfl, ?_, ⟨_, _, rfl⟩, ?_⟩⟩
    · rw [hclaimed, hcycles]
    · rw [hsame]
      exact hknown
  · have hstep := Walk.step_of_move (hgoing _) hlook
    rw [← hview] at hstep
    refine ⟨f.claim cycle, _, (Steps.refl.tail (.look hfree hstep)).trans (Task.steps_claim rfl),
      ⟨rfl, ?_, ⟨_, _, rfl⟩, fun other => ?_⟩⟩
    · rw [hclaimed, hcycles, List.foldl_append]
      rfl
    · rw [hlearnt, Findings.mem_claim, hknown, hhead, List.mem_cons, Option.some.injEq]
      exact or_comm.trans (or_congr_left eq_comm)

theorem Task.Follows.reaches (hfollows : Follows f₀ s f task)
    (hreach : Walk.Reaches .everyCycle true edges s next) :
    ∃ f₁ task₁, Steps edges f task f₁ task₁ ∧ Follows f₀ next f₁ task₁ := by
  induction hreach with
  | refl => exact ⟨f, task, .refl, hfollows⟩
  | tail _ hstep ih =>
    obtain ⟨f₁, task₁, hfirst, hmid⟩ := ih
    obtain ⟨f₂, task₂, hlater, hend⟩ := hmid.move (Walk.move_of_step hstep)
    exact ⟨f₂, task₂, hfirst.trans hlater, hend⟩

/-- A task that nobody disturbs ends, and leaves what its walk leaves. -/
theorem Task.steps_afterWalk (edges : Table) (f : Findings) (root : String) :
    ∃ task, Steps edges f (start edges root) (afterWalk edges f root) task ∧ task.Ended := by
  have hstart : Follows f (Walk.start edges f.knownCyclers.items root) f (start edges root) :=
    ⟨rfl, rfl, ⟨_, _, rfl⟩, fun _ => Iff.rfl⟩
  obtain ⟨f₁, task, hsteps, hfree, hclaimed, ⟨known, cycles, hwalk⟩, _⟩ :=
    hstart.reaches (Walk.reaches_run .everyCycle true edges (Walk.bound edges) _)
  have hframes : (Walk.explore .everyCycle edges f.knownCyclers.items root).frames = [] :=
    (Walk.step_eq_none_iff.mp (Walk.explore_halts ..)).resolve_left fun h => by cases h.1
  subst hclaimed
  exact ⟨task, hsteps, by rw [hwalk]; exact hframes, hfree⟩

/-- Tasks that run one after another fold their walks over the findings. -/
theorem Pool.steps_foldl (edges : Table) (f : Findings) (roots : List String)
    (before : List Task) (hbefore : ∀ task ∈ before, task.Ended) :
    ∃ tasks, ReflTransGen (Pool.Step edges) ⟨f, before ++ roots.map (Task.start edges)⟩
      ⟨roots.foldl (afterWalk edges) f, tasks⟩ ∧ ∀ task ∈ tasks, task.Ended := by
  induction roots generalizing f before with
  | nil => exact ⟨before, by simpa using ReflTransGen.refl, hbefore⟩
  | cons root rest ih =>
    obtain ⟨task, hsteps, hended⟩ := Task.steps_afterWalk edges f root
    have hfirst := hsteps.pool before (rest.map (Task.start edges))
    obtain ⟨tasks, hlater, hall⟩ := ih (afterWalk edges f root) (before ++ [task]) (by
      simpa [or_imp, forall_and] using ⟨hbefore, hended⟩)
    simp only [List.append_assoc, List.singleton_append] at hlater
    exact ⟨tasks, hfirst.trans hlater, hall⟩

end Audit

namespace Graph

open Audit

theorem auditInOrder_eq (g : Graph) (roots : List String) :
    g.auditInOrder roots =
      { g with findings := roots.foldl (afterWalk g.dependencies) g.findings } := by
  induction roots generalizing g with
  | nil => rfl
  | cons root rest ih =>
    change (g.auditFrom root).auditInOrder rest = _
    rw [ih]
    rfl

/-- Whatever the order in which the tasks run one after another, the result is one that the tasks
    can also reach together. -/
theorem audited_auditInOrder (g : Graph) {roots : List String}
    (hroots : roots.Perm g.dependerUnits) : g.Audited (g.auditInOrder roots) := by
  obtain ⟨tasks, hsteps, hended⟩ :=
    Pool.steps_foldl g.dependencies g.findings roots [] (by simp)
  exact ⟨roots, ⟨_, tasks⟩, hroots, hsteps, hended, auditInOrder_eq g roots⟩

end Graph

end ImportCycles
