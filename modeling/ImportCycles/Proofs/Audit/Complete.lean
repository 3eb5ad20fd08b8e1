import ImportCycles.Proofs.Graph.History

open Relation (TransGen ReflTransGen)

namespace ImportCycles

namespace Graph

variable {allowCycles : Bool} {g after : Graph}

@[simp] theorem mem_knownCyclers {g : Graph} {unit : String} :
    unit ∈ g.knownCyclers ↔ unit ∈ g.findings.knownCyclers.items :=
  mem_sortNames

@[simp] theorem mem_cycles {g : Graph} {trace : String} :
    trace ∈ g.cycles ↔ trace ∈ g.findings.traces.items :=
  mem_sortNames

theorem mem_dependerUnits_of_edge {a b : String} (hedge : g.dependencies.Edge a b) :
    a ∈ g.dependerUnits :=
  mem_sortNames.mpr (Table.mem_keys_of_edge hedge)

/-- The traces are the texts of the claimed cycles. -/
theorem WellFormed.mem_cycles_iff (hwell : g.WellFormed) {trace : String} :
    trace ∈ g.cycles ↔ ∃ cycle ∈ g.findings.claims.items, Route.join cycle = trace := by
  rw [mem_cycles]
  constructor
  · exact hwell.findings.tracesClaimed trace
  · rintro ⟨cycle, hcycle, rfl⟩
    exact (hwell.findings.claimsTraced cycle hcycle).resolve_right id

theorem WellFormed.exists_claim (hwell : g.WellFormed) {unit : String}
    (hunit : unit ∈ g.knownCyclers) : ∃ cycle ∈ g.findings.claims.items, unit ∈ cycle := by
  refine (hwell.findings.knownClaimed unit (mem_knownCyclers.mp hunit)).resolve_right ?_
  exact fun ⟨_, hpending, _⟩ => hpending

/-- Without the known cyclers nothing cyclic is left. A cycle that kept clear of them would run
    through its own units' tasks, none of which would have let it pass. -/
theorem WellFormed.acyclic_unknown (hwell : g.WellFormed) (haudit : g.Audited after) :
    Acyclic fun a b =>
      g.dependencies.Edge a b ∧ a ∉ after.knownCyclers ∧ b ∉ after.knownCyclers := by
  obtain ⟨roots, pool, hroots, hsteps, hended, rfl⟩ := haudit
  have hpool := (Audit.Pool.sound_start hwell.findings roots).steps hsteps
  intro unit hloop
  obtain ⟨next, ⟨hedge, _⟩, _⟩ := TransGen.head'_iff.mp hloop
  have hroot : unit ∈ roots := hroots.mem_iff.mpr (mem_dependerUnits_of_edge hedge)
  refine hpool.no_loop hended hroot (TransGen.mono (fun a b h => ?_) _ _ hloop)
  exact ⟨h.1, fun hmem => h.2.2 (mem_knownCyclers.mpr hmem)⟩

/-- Every cycle of the graph passes through a known cycler. -/
theorem WellFormed.circuit_meets_known (hwell : g.WellFormed) (haudit : g.Audited after)
    {units : List String} (hcircuit : Circuit g.dependencies units) :
    ∃ unit ∈ units, unit ∈ after.knownCyclers :=
  hcircuit.exists_mem (hwell.acyclic_unknown haudit)

/-- In each component with a cycle, a recorded cycle lies. The known cycler of the component is on
    a claimed cycle, and a cycle does not leave its component. -/
theorem WellFormed.component_has_claim (hwell : g.WellFormed) (haudit : g.Audited after)
    {unit : String} (hloop : TransGen g.dependencies.Edge unit unit) :
    ∃ cycle ∈ after.findings.claims.items, ∀ other ∈ cycle,
      ReflTransGen g.dependencies.Edge unit other ∧
        ReflTransGen g.dependencies.Edge other unit := by
  have hafter := hwell.audited haudit
  obtain ⟨units, hcircuit, hunit⟩ := exists_circuit_of_loop hloop
  obtain ⟨known, hknown, hmem⟩ := hwell.circuit_meets_known haudit hcircuit
  obtain ⟨cycle, hcycle, hon⟩ := hafter.exists_claim hmem
  have hsimple := hafter.findings.claimsSimple cycle hcycle
  rw [haudit.same_tables.2.1] at hsimple
  refine ⟨cycle, hcycle, fun other hother => ⟨?_, ?_⟩⟩
  · exact (hcircuit.reaches hunit hknown).trans (hsimple.reaches hon hother)
  · exact (hsimple.reaches hother hon).trans (hcircuit.reaches hknown hunit)

/-- The verdict of an audit is exact. -/
theorem WellFormed.allClear_iff (hwell : g.WellFormed) (haudit : g.Audited after) :
    after.allClear = true ↔ Acyclic g.dependencies.Edge := by
  have hafter := hwell.audited haudit
  have hnone : after.allClear = true ↔ ∀ trace, trace ∉ after.cycles := by
    rw [allClear, List.isEmpty_iff, List.eq_nil_iff_forall_not_mem]
  rw [hnone]
  constructor
  · intro hclear unit hloop
    obtain ⟨cycle, hcycle, _⟩ := hwell.component_has_claim haudit hloop
    exact hclear _ (hafter.mem_cycles_iff.mpr ⟨cycle, hcycle, rfl⟩)
  · intro hacyclic trace htrace
    obtain ⟨cycle, hcycle, _⟩ := hafter.mem_cycles_iff.mp htrace
    have hsimple := hafter.findings.claimsSimple cycle hcycle
    rw [haudit.same_tables.2.1] at hsimple
    exact hsimple.not_acyclic hacyclic

/-- An audit misses no strongly connected component, whatever happened before it and in whatever
    order its tasks run: every cycle meets a known cycler, every component with a cycle contains a
    recorded one, and the verdict is exact. -/
theorem auditInOrder_complete (hreach : Reachable allowCycles g) {roots : List String}
    (hroots : roots.Perm g.dependerUnits) :
    (∀ units, Circuit g.dependencies units →
      ∃ unit ∈ units, unit ∈ (g.auditInOrder roots).knownCyclers) ∧
    Acyclic (fun a b => g.dependencies.Edge a b ∧
      a ∉ (g.auditInOrder roots).knownCyclers ∧ b ∉ (g.auditInOrder roots).knownCyclers) ∧
    (∀ unit, TransGen g.dependencies.Edge unit unit →
      ∃ cycle ∈ (g.auditInOrder roots).findings.claims.items,
        Route.join cycle ∈ (g.auditInOrder roots).cycles ∧
        ∀ other ∈ cycle, ReflTransGen g.dependencies.Edge unit other ∧
          ReflTransGen g.dependencies.Edge other unit) ∧
    ((g.auditInOrder roots).allClear = true ↔ Acyclic g.dependencies.Edge) := by
  have hwell := hreach.wellFormed
  have haudit := audited_auditInOrder g hroots
  have hafter := hwell.audited haudit
  refine ⟨fun units => hwell.circuit_meets_known haudit, hwell.acyclic_unknown haudit, ?_,
    hwell.allClear_iff haudit⟩
  intro unit hloop
  obtain ⟨cycle, hcycle, hcomponent⟩ := hwell.component_has_claim haudit hloop
  exact ⟨cycle, hcycle, hafter.mem_cycles_iff.mpr ⟨cycle, hcycle, rfl⟩, hcomponent⟩

/-- Two cycles that share `b`, in a graph that was audited once before its second cycle was
    closed. -/
def grownTangle : Graph :=
  (((((empty true).add "a" "b").2.add "b" "a").2.auditInOrder ["b", "a"]).add "b" "c").2.add "c" "b"
    |>.2

theorem auditInOrder_complete_grownTangle :
    Reachable true grownTangle ∧ ["c", "a", "b"].Perm grownTangle.dependerUnits ∧
    (∃ unit ∈ ["b", "c", "b"], unit ∈ (grownTangle.auditInOrder ["c", "a", "b"]).knownCyclers) ∧
    (∃ cycle ∈ (grownTangle.auditInOrder ["c", "a", "b"]).findings.claims.items,
      Route.join cycle ∈ (grownTangle.auditInOrder ["c", "a", "b"]).cycles ∧
      ∀ other ∈ cycle, ReflTransGen grownTangle.dependencies.Edge "c" other ∧
        ReflTransGen grownTangle.dependencies.Edge other "c") ∧
    ¬ Acyclic grownTangle.dependencies.Edge := by
  have hreach : Reachable true grownTangle :=
    ((((reachable_empty true).add "a" "b").add "b" "a").auditInOrder (by decide)
      |>.add "b" "c").add "c" "b"
  have hroots : ["c", "a", "b"].Perm grownTangle.dependerUnits := by decide
  obtain ⟨hmeets, _, hcomponent, hverdict⟩ := auditInOrder_complete hreach hroots
  have hloop : TransGen grownTangle.dependencies.Edge "c" "c" :=
    .head (by decide) (.single (by decide : grownTangle.dependencies.Edge "b" "c"))
  refine ⟨hreach, hroots, hmeets _ ⟨⟨"b", ["c"], rfl⟩, by decide⟩, hcomponent "c" hloop, ?_⟩
  rw [← hverdict]
  decide

end Graph

end ImportCycles
