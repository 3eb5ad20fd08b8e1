import Mathlib.Data.Set.Function
import ImportCycles.Proofs.Audit.Repeat
import ImportCycles.Proofs.Route

open Relation (TransGen ReflTransGen)

namespace ImportCycles

/-- No unit lies on two different cycles. -/
def Apart (edges : Table) : Prop :=
  ∀ unit cycle other, SimpleCycle edges cycle → SimpleCycle edges other → unit ∈ cycle →
    unit ∈ other → cycle.dropLast.IsRotated other.dropLast

/-- The keys of the simple cycles, one for each cycle up to rotation. -/
def cycleKeys (edges : Table) : Set (List String) :=
  {key | ∃ cycle, SimpleCycle edges cycle ∧ Rotation.key cycle = key}

namespace Audit

variable {edges : Table} {f f' : Findings} {task task' : Task} {pool next : Pool}

theorem Task.Step.traces_distinct (hstep : Task.Step edges f task f' task')
    (hdistinct : f.traces.Distinct) : f'.traces.Distinct := by
  cases hstep with
  | look => exact hdistinct
  | makeKnown => simpa using hdistinct
  | claimNew => exact hdistinct
  | claimOld => exact hdistinct
  | record => exact hdistinct.add _

theorem Pool.traces_distinct (hsteps : ReflTransGen (Pool.Step edges) pool next)
    (hdistinct : pool.findings.traces.Distinct) : next.findings.traces.Distinct := by
  induction hsteps with
  | refl => exact hdistinct
  | tail _ hstep ih =>
    cases hstep with
    | advance _ _ hstep => exact hstep.traces_distinct ih

end Audit

namespace Graph

variable {allowCycles : Bool} {g after : Graph} {cycle : List String}

/-- No trace is recorded twice. -/
theorem Reachable.nodup_cycles (hreach : Reachable allowCycles g) : g.cycles.Nodup := by
  refine (sortNames_perm _).nodup_iff.mpr ?_
  change g.findings.traces.Distinct
  induction hreach with
  | refl => exact .nil
  | tail _ hcall ih =>
    cases hcall with
    | add depender dependent => rwa [(added_add _ _ _).same_findings]
    | findCycle => exact ih
    | audit haudit =>
      obtain ⟨_, _, _, hsteps, _, rfl⟩ := haudit
      exact Audit.Pool.traces_distinct hsteps ih

theorem mem_units_of_mem_circuit (hcircuit : Circuit g.dependencies cycle) {unit : String}
    (hunit : unit ∈ cycle) : unit ∈ g.units := by
  obtain ⟨_, hedge, _⟩ := TransGen.head'_iff.mp (hcircuit.loop hunit)
  exact mem_units.mpr (.inl (Table.mem_keys_of_edge hedge))

/-- A circuit of plain names comes back from its text. -/
theorem split_join_of_circuit (hcircuit : Circuit g.dependencies cycle)
    (hplain : ∀ unit ∈ g.units, Route.Plain unit) : Route.split (Route.join cycle) = cycle := by
  have hnames : ∀ unit ∈ cycle, Route.Plain unit :=
    fun unit hunit => hplain unit (mem_units_of_mem_circuit hcircuit hunit)
  obtain ⟨⟨first, others, rfl⟩, _⟩ := hcircuit
  exact Route.split_join_of_plain (by simp) (by simp) hnames

/-- The text of a cycle of plain names has the key of the cycle. -/
theorem keyOfRoute_join (hcircuit : Circuit g.dependencies cycle)
    (hplain : ∀ unit ∈ g.units, Route.Plain unit) :
    Rotation.keyOfRoute (Route.join cycle) = Rotation.key cycle := by
  rw [Rotation.keyOfRoute, split_join_of_circuit hcircuit hplain]

/-- Where cycles share no unit, an audit claims every cycle: the known cycler that the cycle passes
    through lies on a claimed cycle, which can be no other. -/
theorem WellFormed.exists_key_claim (hwell : g.WellFormed) (haudit : g.Audited after)
    (hapart : Apart g.dependencies) (hcycle : SimpleCycle g.dependencies cycle) :
    ∃ claimed ∈ after.findings.claims.items, Rotation.key claimed = Rotation.key cycle := by
  have hafter := hwell.audited haudit
  obtain ⟨unit, hunit, hknown⟩ := hwell.circuit_meets_known haudit hcycle.toCircuit
  obtain ⟨claimed, hclaimed, hmem⟩ := hafter.exists_claim hknown
  have hsimple := hafter.findings.claimsSimple claimed hclaimed
  rw [haudit.same_tables.2.1] at hsimple
  exact ⟨claimed, hclaimed,
    (hsimple.key_eq_iff hcycle).mpr (hapart unit _ _ hsimple hcycle hmem hunit)⟩

theorem WellFormed.mem_keys_claims_iff (hwell : g.WellFormed) (haudit : g.Audited after)
    (hapart : Apart g.dependencies) (key : List String) :
    key ∈ after.findings.claims.items.map Rotation.key ↔ key ∈ cycleKeys g.dependencies := by
  have hafter := hwell.audited haudit
  rw [List.mem_map]
  constructor
  · rintro ⟨claimed, hclaimed, rfl⟩
    exact ⟨claimed, haudit.same_tables.2.1 ▸ hafter.findings.claimsSimple claimed hclaimed, rfl⟩
  · rintro ⟨cycle, hcycle, rfl⟩
    exact hwell.exists_key_claim haudit hapart hcycle

theorem WellFormed.nodup_keys_claims (hwell : g.WellFormed) :
    (g.findings.claims.items.map Rotation.key).Nodup :=
  List.pairwise_map.mpr hwell.findings.claimsDistinct

/-- Among plain names the traces stand for the claims one by one. -/
theorem WellFormed.bijOn_keyOfRoute (hwell : g.WellFormed)
    (hplain : ∀ unit ∈ g.units, Route.Plain unit) :
    Set.BijOn Rotation.keyOfRoute {trace | trace ∈ g.cycles}
      {key | key ∈ g.findings.claims.items.map Rotation.key} := by
  have hkey : ∀ cycle ∈ g.findings.claims.items,
      Rotation.keyOfRoute (Route.join cycle) = Rotation.key cycle := fun cycle hcycle =>
    keyOfRoute_join (hwell.findings.claimsSimple cycle hcycle).toCircuit hplain
  refine ⟨fun trace htrace => ?_, fun trace htrace other hother hsame => ?_, fun key hmem => ?_⟩
  · obtain ⟨cycle, hcycle, rfl⟩ := hwell.mem_cycles_iff.mp htrace
    exact List.mem_map.mpr ⟨cycle, hcycle, (hkey cycle hcycle).symm⟩
  · obtain ⟨cycle, hcycle, rfl⟩ := hwell.mem_cycles_iff.mp htrace
    obtain ⟨cycle', hcycle', rfl⟩ := hwell.mem_cycles_iff.mp hother
    rw [hkey cycle hcycle, hkey cycle' hcycle'] at hsame
    rw [List.inj_on_of_nodup_map hwell.nodup_keys_claims hcycle hcycle' hsame]
  · obtain ⟨cycle, hcycle, rfl⟩ := List.mem_map.mp hmem
    exact ⟨Route.join cycle, hwell.mem_cycles_iff.mpr ⟨cycle, hcycle, rfl⟩, hkey cycle hcycle⟩

/-- Among plain names there are as many traces as the graph has cycles. -/
theorem length_cycles_eq (hnodup : g.cycles.Nodup) (hbij : Set.BijOn Rotation.keyOfRoute
      {trace | trace ∈ g.cycles} (cycleKeys g.dependencies))
    {rings : List (List String)} (hrings : ∀ ring ∈ rings, SimpleCycle g.dependencies ring)
    (hdistinct : rings.Pairwise fun ring other => ¬ ring.dropLast.IsRotated other.dropLast)
    (hall : ∀ cycle, SimpleCycle g.dependencies cycle →
      ∃ ring ∈ rings, ring.dropLast.IsRotated cycle.dropLast) :
    g.cycles.length = rings.length := by
  have hkeys : (rings.map Rotation.key).Nodup := by
    refine List.pairwise_map.mpr (hdistinct.imp_of_mem fun hring hother hapart hsame => ?_)
    exact hapart (((hrings _ hring).key_eq_iff (hrings _ hother)).mp hsame)
  have htraces : (g.cycles.map Rotation.keyOfRoute).Nodup := hnodup.map_on hbij.injOn
  have hperm : (g.cycles.map Rotation.keyOfRoute).Perm (rings.map Rotation.key) := by
    refine (List.perm_ext_iff_of_nodup htraces hkeys).mpr fun key => ?_
    have himage : key ∈ g.cycles.map Rotation.keyOfRoute ↔ key ∈ cycleKeys g.dependencies := by
      rw [← hbij.image_eq, List.mem_map]
      rfl
    rw [himage, List.mem_map]
    constructor
    · rintro ⟨cycle, hcycle, rfl⟩
      obtain ⟨ring, hring, hrotated⟩ := hall cycle hcycle
      exact ⟨ring, hring, ((hrings ring hring).key_eq_iff hcycle).mpr hrotated⟩
    · rintro ⟨ring, hring, rfl⟩
      exact ⟨ring, hrings ring hring, rfl⟩
  simpa using hperm.length_eq

/-- Reporting is exact where cycles share no unit, after any history, in whatever order the tasks of
    an audit run and however often the audit is repeated. The claims are the simple cycles of the
    graph, each claimed once up to rotation. If the names are plain, so are the traces, one for each
    cycle, and there are as many as one can choose cycles that are no rotations of one another. -/
theorem auditRounds_exact (hreach : Reachable allowCycles g) (hapart : Apart g.dependencies)
    {rounds : List (List String)} (hsome : rounds ≠ [])
    (hrounds : ∀ roots ∈ rounds, roots.Perm g.dependerUnits) :
    (∀ key, key ∈ (g.auditRounds rounds).findings.claims.items.map Rotation.key ↔
      key ∈ cycleKeys g.dependencies) ∧
    ((g.auditRounds rounds).findings.claims.items.map Rotation.key).Nodup ∧
    ((∀ unit ∈ g.units, Route.Plain unit) →
      (g.auditRounds rounds).cycles.Nodup ∧
      Set.BijOn Rotation.keyOfRoute {trace | trace ∈ (g.auditRounds rounds).cycles}
        (cycleKeys g.dependencies) ∧
      ∀ rings : List (List String), (∀ ring ∈ rings, SimpleCycle g.dependencies ring) →
        (rings.Pairwise fun ring other => ¬ ring.dropLast.IsRotated other.dropLast) →
        (∀ cycle, SimpleCycle g.dependencies cycle →
          ∃ ring ∈ rings, ring.dropLast.IsRotated cycle.dropLast) →
        (g.auditRounds rounds).cycles.length = rings.length) := by
  obtain ⟨first, more, rfl⟩ := List.exists_cons_of_ne_nil hsome
  obtain ⟨hfirst, hmore⟩ := List.forall_mem_cons.mp hrounds
  have hwell := hreach.wellFormed
  have haudit := audited_auditInOrder g hfirst
  have hafter := hwell.audited haudit
  obtain ⟨-, hdependencies, hvisibility⟩ := haudit.same_tables
  rw [hwell.auditRounds_cons hfirst more hmore]
  have hclaims := hwell.mem_keys_claims_iff haudit hapart
  refine ⟨hclaims, hafter.nodup_keys_claims, fun hplain => ?_⟩
  have hunits : ∀ unit ∈ (g.auditInOrder first).units, Route.Plain unit := by
    simpa [hdependencies, hvisibility] using hplain
  have hnodup := (hreach.auditInOrder hfirst).nodup_cycles
  have hbij := hafter.bijOn_keyOfRoute hunits
  rw [show {key | key ∈ (g.auditInOrder first).findings.claims.items.map Rotation.key} =
    cycleKeys g.dependencies from Set.ext hclaims] at hbij
  rw [← hdependencies] at hbij ⊢
  exact ⟨hnodup, hbij, fun rings => length_cycles_eq hnodup hbij⟩

/-- A cycle of two units, a unit that leads into it, and a unit that depends on itself. -/
def pairAndLoop : Graph :=
  ((((empty true).add "x" "a").2.add "a" "b").2.add "b" "a").2.add "c" "c" |>.2

private theorem edge_pairAndLoop {a b : String} (hedge : pairAndLoop.dependencies.Edge a b) :
    (a = "x" ∧ b = "a") ∨ (a = "a" ∧ b = "b") ∨ (a = "b" ∧ b = "a") ∨ (a = "c" ∧ b = "c") := by
  have hkey : a ∈ ["x", "a", "b", "c"] := Table.mem_keys_of_edge hedge
  simp only [List.mem_cons, List.not_mem_nil, or_false] at hkey
  rcases hkey with rfl | rfl | rfl | rfl <;>
    (obtain rfl := List.mem_singleton.mp hedge; decide)

private theorem simpleCycle_pairAndLoop (hcycle : SimpleCycle pairAndLoop.dependencies cycle) :
    cycle ∈ [["a", "b", "a"], ["b", "a", "b"], ["c", "c"]] := by
  have hloop : ∀ unit ∈ cycle, TransGen _ unit unit := fun _ => hcycle.toCircuit.loop
  obtain ⟨⟨⟨first, others, rfl⟩, hfollows⟩, hdistinct⟩ := hcycle
  -- nothing leads to `x`, so the cycle does not start there
  obtain ⟨last, _, hinto⟩ := TransGen.tail'_iff.mp (hloop first (by simp))
  have hfirst := edge_pairAndLoop hinto
  rw [← List.cons_append, List.dropLast_concat] at hdistinct
  match others with
  | [] => grind [edge_pairAndLoop (List.isChain_pair.mp hfollows)]
  | [second] =>
    simp only [List.cons_append, List.nil_append, List.isChain_cons_cons] at hfollows
    grind [edge_pairAndLoop hfollows.1, edge_pairAndLoop hfollows.2.1]
  | second :: third :: more =>
    simp only [List.cons_append, List.isChain_cons_cons] at hfollows
    grind [edge_pairAndLoop hfollows.1, edge_pairAndLoop hfollows.2.1]

theorem auditRounds_exact_pairAndLoop :
    Reachable true pairAndLoop ∧ Apart pairAndLoop.dependencies ∧
    (∀ roots ∈ [["c", "b", "a", "x"], ["x", "a", "b", "c"]],
      roots.Perm pairAndLoop.dependerUnits) ∧
    (∀ unit ∈ pairAndLoop.units, Route.Plain unit) ∧
    (pairAndLoop.auditRounds [["c", "b", "a", "x"], ["x", "a", "b", "c"]]).cycles.length = 2 := by
  have hreach : Reachable true pairAndLoop :=
    ((((reachable_empty true).add "x" "a").add "a" "b").add "b" "a").add "c" "c"
  have hapart : Apart pairAndLoop.dependencies := by
    intro unit cycle other hcycle hother
    have hcycle := simpleCycle_pairAndLoop hcycle
    have hother := simpleCycle_pairAndLoop hother
    revert unit
    simp only [List.mem_cons, List.not_mem_nil, or_false] at hcycle hother
    rcases hcycle with rfl | rfl | rfl <;> rcases hother with rfl | rfl | rfl <;> simp <;> decide
  have hrounds : ∀ roots ∈ [["c", "b", "a", "x"], ["x", "a", "b", "c"]],
      roots.Perm pairAndLoop.dependerUnits := by decide
  have hplain : ∀ unit ∈ pairAndLoop.units, Route.Plain unit := by decide
  obtain ⟨_, _, hexact⟩ := auditRounds_exact hreach hapart (by simp) hrounds
  obtain ⟨_, _, hcount⟩ := hexact hplain
  have hpair : SimpleCycle pairAndLoop.dependencies ["a", "b", "a"] :=
    ⟨⟨⟨"a", ["b"], rfl⟩, by decide⟩, by decide⟩
  have hloop : SimpleCycle pairAndLoop.dependencies ["c", "c"] :=
    ⟨⟨⟨"c", [], rfl⟩, by decide⟩, by decide⟩
  refine ⟨hreach, hapart, hrounds, hplain, hcount [["a", "b", "a"], ["c", "c"]] ?_ (by decide) ?_⟩
  · simpa using ⟨hpair, hloop⟩
  · intro cycle hcycle
    have hcycle := simpleCycle_pairAndLoop hcycle
    simp only [List.mem_cons, List.not_mem_nil, or_false] at hcycle
    rcases hcycle with rfl | rfl | rfl <;> decide

end Graph

end ImportCycles
