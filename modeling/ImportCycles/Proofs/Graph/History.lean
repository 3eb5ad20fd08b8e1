import ImportCycles.Proofs.Audit.Serial
import ImportCycles.Proofs.Graph.Insertion

open Relation (ReflTransGen)

namespace ImportCycles

namespace Graph

/-- What one call makes of a graph. A refused edge is a call as well, and an audit may leave
    whatever its tasks can reach together; looking for a cycle changes nothing. -/
inductive Call : Graph → Graph → Prop where
  | add (g : Graph) (depender dependent : String) : Call g (g.add depender dependent).2
  | findCycle (g : Graph) : Call g g
  | audit {g after : Graph} (haudit : g.Audited after) : Call g after

/-- One graph comes from another by any number of calls. -/
def Leads : Graph → Graph → Prop :=
  ReflTransGen Call

/-- A state that a new graph can get into. -/
def Reachable (allowCycles : Bool) (g : Graph) : Prop :=
  Leads (empty allowCycles) g

/-- What every call preserves. -/
structure WellFormed (g : Graph) : Prop where
  mirrored : g.Mirrored
  findings : g.findings.Sound g.dependencies fun _ => False

variable {allowCycles : Bool} {g after : Graph}

@[simp] theorem mem_units {unit : String} :
    unit ∈ g.units ↔ unit ∈ g.dependencies.keys ∨ unit ∈ g.visibility.keys := by
  simp [units]

theorem contains_iff_mem_units {unit : String} : g.contains unit = true ↔ unit ∈ g.units := by
  simp [contains]

theorem reachable_empty (allowCycles : Bool) : Reachable allowCycles (empty allowCycles) :=
  ReflTransGen.refl

theorem Reachable.add (hreach : Reachable allowCycles g) (depender dependent : String) :
    Reachable allowCycles (g.add depender dependent).2 :=
  ReflTransGen.tail hreach (.add g depender dependent)

theorem Reachable.auditInOrder (hreach : Reachable allowCycles g) {roots : List String}
    (hroots : roots.Perm g.dependerUnits) : Reachable allowCycles (g.auditInOrder roots) :=
  ReflTransGen.tail hreach (.audit (audited_auditInOrder g hroots))

theorem Reachable.leads (hreach : Reachable allowCycles g) (hleads : Leads g after) :
    Reachable allowCycles after :=
  ReflTransGen.trans hreach hleads

/-- An audit touches nothing but the findings. -/
theorem Audited.same_tables (haudit : g.Audited after) :
    after.allowCycles = g.allowCycles ∧ after.dependencies = g.dependencies ∧
      after.visibility = g.visibility := by
  obtain ⟨_, _, _, _, _, rfl⟩ := haudit
  exact ⟨rfl, rfl, rfl⟩

theorem wellFormed_empty (allowCycles : Bool) : (empty allowCycles).WellFormed :=
  ⟨mirrored_empty allowCycles, Findings.sound_empty _⟩

theorem WellFormed.add (hwell : g.WellFormed) (a b : String) : (g.add a b).2.WellFormed := by
  rcases (added_add g a b).connect_or_same hwell.mirrored with ⟨_, hafter⟩ | ⟨_, hafter⟩
  · rw [hafter]
    exact ⟨hwell.mirrored.connect a b,
      hwell.findings.mono fun x y hedge => (edge_connect_iff g a b x y).mpr (.inl hedge)⟩
  · rw [hafter]
    exact hwell

theorem WellFormed.audited (hwell : g.WellFormed) (haudit : g.Audited after) :
    after.WellFormed := by
  obtain ⟨roots, pool, _, hsteps, hended, rfl⟩ := haudit
  have hpool := (Audit.Pool.sound_start hwell.findings roots).steps hsteps
  obtain ⟨hdependencies, hvisibility, hsides⟩ := hwell.mirrored
  exact ⟨⟨hdependencies, hvisibility, hsides⟩, hpool.findings_of_ended hended⟩

theorem WellFormed.call (hwell : g.WellFormed) (hcall : Call g after) : after.WellFormed := by
  cases hcall with
  | add depender dependent => exact hwell.add depender dependent
  | findCycle => exact hwell
  | audit haudit => exact hwell.audited haudit

theorem Reachable.wellFormed (hreach : Reachable allowCycles g) : g.WellFormed := by
  induction hreach with
  | refl => exact wellFormed_empty allowCycles
  | tail _ hcall ih => exact ih.call hcall

theorem Reachable.allowCycles_eq (hreach : Reachable allowCycles g) :
    g.allowCycles = allowCycles := by
  induction hreach with
  | refl => rfl
  | tail _ hcall ih =>
    cases hcall with
    | add depender dependent => exact (added_add _ _ _).same_allowCycles.trans ih
    | findCycle => exact ih
    | audit haudit => rw [haudit.same_tables.1, ih]

/-- No history of calls brings a cycle into a graph that guards its insertions. -/
theorem Reachable.acyclic (hreach : Reachable false g) : Acyclic g.dependencies.Edge := by
  induction hreach with
  | refl =>
    rintro unit hloop
    obtain ⟨next, hedge, _⟩ := Relation.TransGen.head'_iff.mp hloop
    exact Table.not_edge_nil unit next hedge
  | @tail before after hbefore hcall ih =>
    have hreach : Reachable false before := hbefore
    cases hcall with
    | add depender dependent =>
      exact (added_add _ _ _).acyclic hreach.wellFormed.mirrored hreach.allowCycles_eq ih
    | findCycle => exact ih
    | audit haudit => rwa [haudit.same_tables.2.1]

end Graph

end ImportCycles
