import ImportCycles.Proofs.Audit.Complete

open Relation (ReflTransGen)

namespace ImportCycles

namespace Audit

variable {edges : Table} {f f' : Findings} {task task' : Task} {pool next : Pool}

theorem Task.Step.claims_subset (hstep : Task.Step edges f task f' task') :
    f.claims.items ⊆ f'.claims.items := by
  cases hstep with
  | look => exact fun _ => id
  | makeKnown => exact fun _ h => by simpa using h
  | claimNew _ hnew => simp [FirstKept.insert, FirstKept.add_of_not_contains hnew]
  | claimOld => exact fun _ => id
  | record => exact fun _ => id

theorem Pool.claims_subset (hsteps : ReflTransGen (Pool.Step edges) pool next) :
    pool.findings.claims.items ⊆ next.findings.claims.items := by
  induction hsteps with
  | refl => exact fun _ => id
  | tail _ hstep ih =>
    cases hstep with
    | advance _ _ hstep => exact List.Subset.trans ih hstep.claims_subset

end Audit

namespace Graph

variable {allowCycles : Bool} {g earlier after : Graph}

/-- What is claimed once stays claimed. -/
theorem Leads.claims_subset (hleads : Leads g after) :
    g.findings.claims.items ⊆ after.findings.claims.items := by
  induction hleads with
  | refl => exact fun _ => id
  | tail _ hcall ih =>
    refine List.Subset.trans ih ?_
    cases hcall with
    | add depender dependent =>
      rw [(added_add _ _ _).same_findings]
      exact fun _ => id
    | findCycle => exact fun _ => id
    | audit haudit =>
      obtain ⟨_, _, _, hsteps, _, rfl⟩ := haudit
      exact Audit.Pool.claims_subset hsteps

theorem WellFormed.claims_not_rotated (hwell : g.WellFormed) :
    g.findings.claims.items.Pairwise fun cycle other =>
      ¬ cycle.dropLast.IsRotated other.dropLast := by
  refine hwell.findings.claimsDistinct.imp_of_mem fun {cycle other} hcycle hother hkeys => ?_
  have hsimple := hwell.findings.claimsSimple cycle hcycle
  rw [← hsimple.key_eq_iff (hwell.findings.claimsSimple other hother)]
  exact hkeys

/-- The findings stay sound over a whole history. A cycle that was claimed at any moment is still
    claimed, and is a simple closed route along edges that are stored now; no claim is a rotation of
    another, the traces are the texts of the claims, and audits leave both tables alone. -/
theorem claims_sound (hreach : Reachable allowCycles earlier) (hleads : Leads earlier g) :
    (∀ cycle ∈ earlier.findings.claims.items, cycle ∈ g.findings.claims.items ∧
      ∃ first others, cycle = first :: (others ++ [first]) ∧ (first :: others).Nodup ∧
        cycle.IsChain g.dependencies.Edge) ∧
    (g.findings.claims.items.Pairwise fun cycle other =>
      ¬ cycle.dropLast.IsRotated other.dropLast) ∧
    (∀ trace, trace ∈ g.cycles ↔ ∃ cycle ∈ g.findings.claims.items, Route.join cycle = trace) ∧
    (∀ after, g.Audited after →
      after.dependencies = g.dependencies ∧ after.visibility = g.visibility) := by
  have hwell := (hreach.leads hleads).wellFormed
  refine ⟨fun cycle hcycle => ?_, hwell.claims_not_rotated, fun _ => hwell.mem_cycles_iff,
    fun after haudit => haudit.same_tables.2⟩
  have hkept := hleads.claims_subset hcycle
  obtain ⟨⟨⟨first, others, rfl⟩, hfollows⟩, hdistinct⟩ := hwell.findings.claimsSimple cycle hkept
  rw [← List.cons_append, List.dropLast_concat] at hdistinct
  exact ⟨hkept, first, others, rfl, hdistinct, hfollows⟩

/-- A graph with one cycle, after its first audit. -/
def auditedPair : Graph :=
  (((empty true).add "a" "b").2.add "b" "a").2.auditInOrder ["b", "a"]

theorem claims_sound_auditedPair :
    Reachable true auditedPair ∧ Leads auditedPair ((auditedPair.add "b" "b").2) ∧
    ["a", "b", "a"] ∈ auditedPair.findings.claims.items ∧
    ["a", "b", "a"] ∈ (auditedPair.add "b" "b").2.findings.claims.items ∧
    ["a", "b", "a"].IsChain (auditedPair.add "b" "b").2.dependencies.Edge ∧
    "a -> b -> a" ∈ (auditedPair.add "b" "b").2.cycles := by
  have hreach : Reachable true auditedPair :=
    (((reachable_empty true).add "a" "b").add "b" "a").auditInOrder (by decide)
  have hleads : Leads auditedPair (auditedPair.add "b" "b").2 := .single (.add auditedPair "b" "b")
  have hclaimed : ["a", "b", "a"] ∈ auditedPair.findings.claims.items := by decide
  obtain ⟨hclaims, _, htraces, _⟩ := claims_sound hreach hleads
  obtain ⟨hkept, _, _, _, _, hfollows⟩ := hclaims _ hclaimed
  refine ⟨hreach, hleads, hclaimed, hkept, hfollows, (htraces _).mpr ⟨_, hkept, ?_⟩⟩
  decide

end Graph

end ImportCycles
