import ImportCycles.Proofs.Audit.Complete

open Relation (ReflTransGen)

namespace ImportCycles

namespace Audit

variable {edges : Table} {f f' : Findings} {task task' : Task} {roots : List String}
  {pool next : Pool}

/-- A task with nothing to tell: it has no errand, and no unit on its path is known. -/
structure Task.Idle (f : Findings) (task : Task) : Prop where
  free : task.errand = none
  unknown : ∀ unit ∈ task.walk.path, unit ∉ f.knownCyclers.items

theorem Task.Idle.step (hidle : task.Idle f) (hsound : task.Sound edges f)
    (hacyclic : Acyclic fun a b =>
      edges.Edge a b ∧ a ∉ f.knownCyclers.items ∧ b ∉ f.knownCyclers.items)
    (hstep : Task.Step edges f task f' task') : f' = f ∧ task'.Idle f := by
  have hfree := hidle.free
  cases hstep with
  | look _ hstep =>
    have hbefore : Walk.Quiet f.knownCyclers.items
        { task.walk with known := f.knownCyclers.items, cycles := [] } :=
      ⟨rfl, rfl, hidle.unknown⟩
    have hquiet := hbefore.move (hsound.learn hfree) hacyclic (Walk.move_of_step hstep)
    exact ⟨rfl, by simp [hquiet.cycles], hquiet.unknown⟩
  | makeKnown herrand => simp [hfree] at herrand
  | claimNew herrand => simp [hfree] at herrand
  | claimOld herrand => simp [hfree] at herrand
  | record herrand => simp [hfree] at herrand

/-- Idle tasks stay idle and leave the findings as they are. -/
theorem Pool.findings_of_idle (hsound : pool.Sound edges roots)
    (hidle : ∀ task ∈ pool.tasks, task.Idle pool.findings)
    (hacyclic : Acyclic fun a b => edges.Edge a b ∧
      a ∉ pool.findings.knownCyclers.items ∧ b ∉ pool.findings.knownCyclers.items)
    (hsteps : ReflTransGen (Pool.Step edges) pool next) :
    next.findings = pool.findings ∧ ∀ task ∈ next.tasks, task.Idle pool.findings := by
  induction hsteps with
  | refl => exact ⟨rfl, hidle⟩
  | tail hbefore hstep ih =>
    have hmid := hsound.steps hbefore
    cases hstep with
    | @advance f f' task task' before after hstep =>
      obtain ⟨hsame, hall⟩ := ih
      change f = pool.findings at hsame
      subst hsame
      obtain ⟨rfl, hafter⟩ := (hall task (by simp)).step (hmid.tasks task (by simp)) hacyclic hstep
      refine ⟨rfl, fun other hother => ?_⟩
      rcases List.mem_append.mp hother with hother | hother
      · exact hall other (List.mem_append_left _ hother)
      · rcases List.mem_cons.mp hother with rfl | hother
        · exact hafter
        · exact hall other (List.mem_append_right _ (.tail _ hother))

end Audit

namespace Graph

variable {allowCycles : Bool} {g after last : Graph}

/-- A graph that comes out of an audit comes out of the next one unchanged. -/
theorem WellFormed.audited_again (hwell : g.WellFormed) (haudit : g.Audited after)
    (hagain : after.Audited last) : last = after := by
  have hafter := hwell.audited haudit
  obtain ⟨roots, pool, _, hsteps, _, rfl⟩ := hagain
  have hacyclic := hwell.acyclic_unknown haudit
  rw [← haudit.same_tables.2.1] at hacyclic
  simp only [mem_knownCyclers] at hacyclic
  have hidle : ∀ task ∈ roots.map (Audit.Task.start after.dependencies),
      task.Idle after.findings := by
    intro task htask
    obtain ⟨root, _, rfl⟩ := List.mem_map.mp htask
    exact ⟨rfl, by simp [Audit.Task.start, Walk.start]⟩
  have hsame := (Audit.Pool.findings_of_idle (Audit.Pool.sound_start hafter.findings roots) hidle
    hacyclic hsteps).1
  rw [hsame]

/-- Audits one after another, each with its tasks in an order of its own. -/
def auditRounds (g : Graph) (rounds : List (List String)) : Graph :=
  rounds.foldl auditInOrder g

/-- Only the first of several audits can change anything. -/
theorem WellFormed.auditRounds_cons (hwell : g.WellFormed) {first : List String}
    (hfirst : first.Perm g.dependerUnits) (more : List (List String))
    (hmore : ∀ roots ∈ more, roots.Perm g.dependerUnits) :
    g.auditRounds (first :: more) = g.auditInOrder first := by
  have haudit := audited_auditInOrder g hfirst
  have hunits : (g.auditInOrder first).dependerUnits = g.dependerUnits := by
    rw [dependerUnits, haudit.same_tables.2.1, dependerUnits]
  change more.foldl auditInOrder (g.auditInOrder first) = _
  induction more with
  | nil => rfl
  | cons again rest ih =>
    obtain ⟨hagain, hrest⟩ := List.forall_mem_cons.mp hmore
    have hsame : (g.auditInOrder first).auditInOrder again = g.auditInOrder first :=
      hwell.audited_again haudit (audited_auditInOrder _ (hunits ▸ hagain))
    rw [List.foldl_cons, hsame]
    exact ih hrest

/-- Repeating an audit changes nothing, whatever happened before it. The second audit leaves the
    very graph that the first one left, with its known cyclers, claims and traces, so it reports the
    same traces and gives the same verdict; neither the orders of the tasks nor their interleaving
    matter. -/
theorem auditInOrder_auditInOrder (hreach : Reachable allowCycles g) {roots again : List String}
    (hroots : roots.Perm g.dependerUnits) (hagain : again.Perm g.dependerUnits) :
    (g.auditInOrder roots).auditInOrder again = g.auditInOrder roots ∧
    ∀ after last, g.Audited after → after.Audited last → last = after := by
  have hwell := hreach.wellFormed
  refine ⟨?_, fun _ _ => hwell.audited_again⟩
  exact hwell.auditRounds_cons hroots [again] (by simpa using hagain)

/-- Three cycles in a row, each of which shares a unit with the next, in a graph that was audited
    before its last cycle was closed. -/
def grownChain : Graph :=
  (((((((empty true).add "a" "b").2.add "b" "a").2.add "b" "c").2.add "c" "b").2.auditInOrder
    ["c", "b", "a"]).add "c" "d").2.add "d" "c" |>.2

theorem auditInOrder_auditInOrder_grownChain :
    Reachable true grownChain ∧ ["d", "b", "a", "c"].Perm grownChain.dependerUnits ∧
    ["a", "b", "c", "d"].Perm grownChain.dependerUnits ∧
    ((grownChain.auditInOrder ["d", "b", "a", "c"]).auditInOrder ["a", "b", "c", "d"]) =
      grownChain.auditInOrder ["d", "b", "a", "c"] ∧
    (grownChain.auditInOrder ["d", "b", "a", "c"]).knownCyclers ≠ grownChain.knownCyclers := by
  have hreach : Reachable true grownChain :=
    ((((((reachable_empty true).add "a" "b").add "b" "a").add "b" "c").add "c" "b").auditInOrder
      (by decide) |>.add "c" "d").add "d" "c"
  have hroots : ["d", "b", "a", "c"].Perm grownChain.dependerUnits := by decide
  have hagain : ["a", "b", "c", "d"].Perm grownChain.dependerUnits := by decide
  exact ⟨hreach, hroots, hagain, (auditInOrder_auditInOrder hreach hroots hagain).1, by decide⟩

end Graph

end ImportCycles
