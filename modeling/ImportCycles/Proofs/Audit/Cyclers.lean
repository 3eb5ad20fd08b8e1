import ImportCycles.Proofs.Audit.Apart
import ImportCycles.Proofs.Walk.Gate

open Relation (TransGen ReflTransGen)

namespace ImportCycles

namespace Findings

/-- What becomes of a cycle that starts and ends at `offender`, when neither it nor its offender was
    there before: both are kept. -/
structure Gains (f : Findings) (offender : String) (cycle : List String) : Prop where
  closed : ∃ others, cycle = offender :: (others ++ [offender])
  unknown : offender ∉ f.knownCyclers.items
  stored : (f.claims.add cycle).1 = true
  claims_eq : (f.claim cycle).claims.items = f.claims.items ++ [cycle]
  known_eq : (f.claim cycle).knownCyclers.items = f.knownCyclers.items ++ [offender]

/-- Closed cycles that are new to the findings and to one another, as their first units are. -/
structure Fresh (f : Findings) (cycles : List (List String)) : Prop where
  closed : ∀ cycle ∈ cycles, ∃ first others, cycle = first :: (others ++ [first])
  distinct : (f.claims.items ++ cycles).Pairwise fun cycle other =>
    Rotation.key cycle ≠ Rotation.key other
  nodup : (f.knownCyclers.items ++ cycles.filterMap List.head?).Nodup

variable {f : Findings} {cycle : List String} {cycles more : List (List String)}

theorem gains_of_new {offender : String}
    (hclosed : ∃ others, cycle = offender :: (others ++ [offender]))
    (hunknown : offender ∉ f.knownCyclers.items)
    (hnew : ∀ other ∈ f.claims.items, Rotation.key other ≠ Rotation.key cycle) :
    f.Gains offender cycle := by
  have hclaims : f.claims.contains cycle = false := by
    refine Bool.eq_false_iff.mpr fun hold => ?_
    obtain ⟨other, hother, hkey⟩ := FirstKept.contains_iff.mp hold
    exact hnew other hother hkey
  have hknown : f.knownCyclers.contains offender = false := by
    refine Bool.eq_false_iff.mpr fun hold => ?_
    obtain ⟨other, hother, rfl⟩ := FirstKept.contains_iff.mp hold
    exact hunknown hother
  obtain ⟨others, rfl⟩ := hclosed
  refine ⟨⟨others, rfl⟩, hunknown, by rw [FirstKept.add_of_not_contains hclaims], ?_, ?_⟩
  · simp [claim_eq, hclaims, FirstKept.insert, FirstKept.add_of_not_contains]
  · simp [claim_eq, hclaims, makeKnown, FirstKept.insert, FirstKept.add_of_not_contains hknown]

theorem Fresh.left (hfresh : f.Fresh (cycles ++ more)) : f.Fresh cycles where
  closed cycle hcycle := hfresh.closed cycle (List.mem_append_left _ hcycle)
  distinct := by
    have hdistinct := hfresh.distinct
    rw [← List.append_assoc] at hdistinct
    exact (List.pairwise_append.mp hdistinct).1
  nodup := by
    have hnodup := hfresh.nodup
    rw [List.filterMap_append, ← List.append_assoc] at hnodup
    exact (List.nodup_append.mp hnodup).1

/-- The last of some fresh cycles is new to the findings that the others have left. -/
theorem Fresh.gains_last (hfresh : f.Fresh (cycles ++ [cycle]))
    (hclaims : (cycles.foldl claim f).claims.items = f.claims.items ++ cycles)
    (hknown : (cycles.foldl claim f).knownCyclers.items =
      f.knownCyclers.items ++ cycles.filterMap List.head?) :
    ∃ offender, cycle.head? = some offender ∧ (cycles.foldl claim f).Gains offender cycle := by
  obtain ⟨hclosed, hdistinct, hnodup⟩ := hfresh
  obtain ⟨offender, others, rfl⟩ := hclosed cycle (by simp)
  rw [← List.append_assoc] at hdistinct
  rw [List.filterMap_append, ← List.append_assoc] at hnodup
  refine ⟨offender, rfl, gains_of_new ⟨others, rfl⟩ ?_ ?_⟩
  · rw [hknown]
    intro hmem
    exact (List.nodup_append.mp hnodup).2.2 offender hmem offender (by simp) rfl
  · rw [hclaims]
    intro other hother
    exact (List.pairwise_append.mp hdistinct).2.2 other hother _ (by simp)

/-- Fresh cycles are all claimed, and their first units all become known, in their order. -/
theorem Fresh.foldl_claim (hfresh : f.Fresh cycles) :
    (cycles.foldl claim f).claims.items = f.claims.items ++ cycles ∧
      (cycles.foldl claim f).knownCyclers.items =
        f.knownCyclers.items ++ cycles.filterMap List.head? := by
  induction cycles using List.reverseRecOn with
  | nil => simp
  | append_singleton earlier cycle ih =>
    obtain ⟨hclaims, hknown⟩ := ih hfresh.left
    obtain ⟨offender, hhead, hgains⟩ := hfresh.gains_last hclaims hknown
    simp only [List.foldl_append, List.foldl_cons, List.foldl_nil]
    rw [hgains.claims_eq, hgains.known_eq, hclaims, hknown]
    simp [hhead]

theorem Fresh.gains {before later : List (List String)}
    (hfresh : f.Fresh (before ++ cycle :: later)) :
    ∃ offender, cycle.head? = some offender ∧ (before.foldl claim f).Gains offender cycle := by
  rw [← List.singleton_append, ← List.append_assoc] at hfresh
  obtain ⟨hclaims, hknown⟩ := hfresh.left.left.foldl_claim
  exact hfresh.left.gains_last hclaims hknown

theorem Fresh.append (hfresh : f.Fresh cycles) (hmore : (cycles.foldl claim f).Fresh more) :
    f.Fresh (cycles ++ more) := by
  obtain ⟨hclaims, hknown⟩ := hfresh.foldl_claim
  obtain ⟨hclosed, hdistinct, hnodup⟩ := hmore
  refine ⟨List.forall_mem_append.mpr ⟨hfresh.closed, hclosed⟩, ?_, ?_⟩
  · rwa [hclaims, List.append_assoc] at hdistinct
  · rwa [hknown, List.append_assoc, ← List.filterMap_append] at hnodup

/-- Claims and known cyclers go together: the claims are distinct cycles, and their first units,
    each for one claim, are the known cyclers. -/
structure Matched (edges : Table) (f : Findings) : Prop where
  simple : ∀ cycle ∈ f.claims.items, SimpleCycle edges cycle
  distinct : f.claims.Distinct
  heads : f.claims.items.filterMap List.head? = f.knownCyclers.items
  nodup : f.knownCyclers.items.Nodup

theorem matched_empty (edges : Table) : ({} : Findings).Matched edges where
  simple := by simp
  distinct := .nil
  heads := rfl
  nodup := .nil

theorem Matched.mono {edges denser : Table} (hmatched : f.Matched edges)
    (hsub : ∀ a b, edges.Edge a b → denser.Edge a b) : f.Matched denser :=
  { hmatched with simple := fun cycle hcycle => (hmatched.simple cycle hcycle).mono hsub }

theorem Matched.mem_known_iff {edges : Table} (hmatched : f.Matched edges) (unit : String) :
    unit ∈ f.knownCyclers.items ↔ ∃ cycle ∈ f.claims.items, cycle.head? = some unit := by
  rw [← hmatched.heads, List.mem_filterMap]

theorem Matched.map_first {edges : Table} (hmatched : f.Matched edges) :
    f.claims.items.map (·.headD "") = f.knownCyclers.items := by
  rw [← hmatched.heads, List.filterMap_eq_map_iff_forall_eq_some.mpr]
  intro cycle hcycle
  obtain ⟨first, others, rfl⟩ := (hmatched.simple cycle hcycle).closed
  rfl

theorem Matched.fresh_nil {edges : Table} (hmatched : f.Matched edges) : f.Fresh [] where
  closed := by simp
  distinct := by
    rw [List.append_nil]
    exact hmatched.distinct
  nodup := by simpa using hmatched.nodup

theorem Matched.foldl_claim {edges : Table} (hmatched : f.Matched edges) (hfresh : f.Fresh cycles)
    (hsimple : ∀ cycle ∈ cycles, SimpleCycle edges cycle) :
    (cycles.foldl claim f).Matched edges := by
  obtain ⟨hclaims, hknown⟩ := hfresh.foldl_claim
  refine ⟨?_, ?_, ?_, ?_⟩
  · rw [hclaims]
    exact List.forall_mem_append.mpr ⟨hmatched.simple, hsimple⟩
  · rw [FirstKept.Distinct, hclaims]
    exact hfresh.distinct
  · rw [hclaims, hknown, List.filterMap_append, hmatched.heads]
  · rw [hknown]
    exact hfresh.nodup

/-- The cycles of a walk are fresh: the known units keep it from meeting one twice. -/
theorem Matched.fresh_cyclesFrom {edges : Table} (hmatched : f.Matched edges) (root : String) :
    f.Fresh (Walk.cyclesFrom edges f.knownCyclers.items root) ∧
      ∀ cycle ∈ Walk.cyclesFrom edges f.knownCyclers.items root, SimpleCycle edges cycle := by
  have hknown : ∀ cycle ∈ f.claims.items, ∀ unit, cycle.head? = some unit →
      unit ∈ f.knownCyclers.items :=
    fun cycle hcycle unit hhead => (hmatched.mem_known_iff unit).mpr ⟨cycle, hcycle, hhead⟩
  have hstart := Walk.gated_start root hmatched.simple hmatched.distinct hmatched.nodup hknown
  have hgated := (Walk.reaches_run .everyCycle true edges (Walk.bound edges) _).gated
    (Walk.invariant_start edges f.knownCyclers.items root) hstart
  obtain ⟨_, hreported⟩ := Walk.explore_spec .everyCycle edges f.knownCyclers.items root
  refine ⟨⟨fun cycle hcycle => ?_, hgated.distinct, ?_⟩, hreported.simple⟩
  · exact (hreported.simple cycle hcycle).closed
  · have hnodup := hgated.nodup
    change (Walk.explore .everyCycle edges f.knownCyclers.items root).known.Nodup at hnodup
    rw [hreported.known_eq] at hnodup
    exact (((List.reverse_perm _).append_right _).trans List.perm_append_comm).nodup_iff.mp hnodup

end Findings

namespace Graph

/-- What one call makes of a graph whose audits run their tasks one after another, in any order. -/
inductive SerialCall : Graph → Graph → Prop where
  | add (g : Graph) (depender dependent : String) : SerialCall g (g.add depender dependent).2
  | findCycle (g : Graph) : SerialCall g g
  | audit (g : Graph) {roots : List String} (hroots : roots.Perm g.dependerUnits) :
      SerialCall g (g.auditInOrder roots)

/-- A state that a new graph gets into by such calls. -/
def Serial (allowCycles : Bool) : Graph → Prop :=
  ReflTransGen SerialCall (empty allowCycles)

/-- The cycles that the walks of an audit meet, from the given roots, in order. -/
def reports (g : Graph) : List String → List (List String)
  | [] => []
  | root :: rest =>
    Walk.cyclesFrom g.dependencies g.findings.knownCyclers.items root ++
      (g.auditFrom root).reports rest

variable {allowCycles : Bool} {g : Graph}

/-- An audit takes in the cycles that it meets, and does nothing else. -/
theorem auditInOrder_eq_foldl_reports (g : Graph) (roots : List String) :
    g.auditInOrder roots =
      { g with findings := (g.reports roots).foldl Findings.claim g.findings } := by
  induction roots generalizing g with
  | nil => rfl
  | cons root rest ih =>
    change (g.auditFrom root).auditInOrder rest = _
    rw [ih, reports, List.foldl_append]
    rfl

theorem fresh_reports (hmatched : g.findings.Matched g.dependencies) (roots : List String) :
    g.findings.Fresh (g.reports roots) ∧
      (g.auditInOrder roots).findings.Matched g.dependencies := by
  induction roots generalizing g with
  | nil => exact ⟨hmatched.fresh_nil, hmatched⟩
  | cons root rest ih =>
    obtain ⟨hfresh, hsimple⟩ := hmatched.fresh_cyclesFrom root
    obtain ⟨hmore, hafter⟩ := ih (g := g.auditFrom root) (hmatched.foldl_claim hfresh hsimple)
    exact ⟨hfresh.append hmore, hafter⟩

theorem SerialCall.call {after : Graph} (hcall : SerialCall g after) : Call g after := by
  cases hcall with
  | add depender dependent => exact .add g depender dependent
  | findCycle => exact .findCycle g
  | audit hroots => exact .audit (audited_auditInOrder g hroots)

theorem Serial.reachable (hserial : Serial allowCycles g) : Reachable allowCycles g :=
  ReflTransGen.mono (fun _ _ => SerialCall.call) _ _ hserial

theorem Serial.matched (hserial : Serial allowCycles g) : g.findings.Matched g.dependencies := by
  induction hserial with
  | refl => exact Findings.matched_empty _
  | @tail before after hbefore hcall ih =>
    cases hcall with
    | add depender dependent =>
      have hreach : Reachable allowCycles before := Serial.reachable hbefore
      have hadded := added_add before depender dependent
      rw [hadded.same_findings]
      rcases hadded.connect_or_same hreach.wellFormed.mirrored with ⟨_, hafter⟩ | ⟨_, hafter⟩
      · rw [hafter]
        exact ih.mono fun a b hedge => (edge_connect_iff before _ _ a b).mpr (.inl hedge)
      · rwa [hafter]
    | findCycle => exact ih
    | @audit roots hroots =>
      have hmatched := (fresh_reports ih roots).2
      rw [auditInOrder_eq_foldl_reports] at hmatched ⊢
      exact hmatched

theorem Serial.mem_units_of_known (hserial : Serial allowCycles g) {unit : String}
    (hknown : unit ∈ g.findings.knownCyclers.items) :
    unit ∈ g.units ∧ ∃ cycle, SimpleCycle g.dependencies cycle ∧ unit ∈ cycle := by
  obtain ⟨cycle, hcycle, hhead⟩ := (hserial.matched.mem_known_iff unit).mp hknown
  have hsimple := hserial.matched.simple cycle hcycle
  have hunit := List.mem_of_head? hhead
  exact ⟨mem_units_of_mem_circuit hsimple.toCircuit hunit, cycle, hsimple, hunit⟩

/-- There are no more claims than units, since each has a known cycler of its own. -/
theorem Serial.length_claims_le (hserial : Serial allowCycles g) :
    g.findings.claims.items.length ≤ g.size := by
  rw [← List.length_map (·.headD ""), hserial.matched.map_first]
  refine (List.subperm_of_subset hserial.matched.nodup fun unit hknown => ?_).length_le
  exact (hserial.mem_units_of_known hknown).1

theorem Serial.length_cycles_le (hserial : Serial allowCycles g) :
    g.cycles.length ≤ g.findings.claims.items.length := by
  have hreach := hserial.reachable
  rw [← List.length_map Route.join]
  refine (List.subperm_of_subset hreach.nodup_cycles fun trace htrace => ?_).length_le
  rw [List.mem_map]
  exact hreach.wellFormed.mem_cycles_iff.mp htrace

/-- The first unit of a claim is its known cycler, and no two claims have the same. -/
theorem Serial.bijOn_first (hserial : Serial allowCycles g) :
    Set.BijOn (fun cycle => cycle.headD "") {cycle | cycle ∈ g.findings.claims.items}
      {unit | unit ∈ g.knownCyclers} := by
  have hmatched := hserial.matched
  have hnodup := hmatched.nodup
  rw [← hmatched.map_first] at hnodup
  have hmem : ∀ unit, unit ∈ g.knownCyclers ↔
      unit ∈ g.findings.claims.items.map (·.headD "") := by
    intro unit
    rw [hmatched.map_first, mem_knownCyclers]
  refine ⟨fun cycle hcycle => ?_, fun cycle hcycle other hother hsame => ?_, fun unit hunit => ?_⟩
  · exact (hmem _).mpr (List.mem_map_of_mem hcycle)
  · exact List.inj_on_of_nodup_map hnodup hcycle hother hsame
  · exact List.mem_map.mp ((hmem unit).mp hunit)

/-- Audits that run their tasks one after another lose no claim, whatever happened before. Every
    cycle that such an audit meets starts and ends at a unit that was not known and becomes known
    with it, and no rotation of it was claimed. So the known cyclers are the first units of the
    claims, one for each; all of them lie on cycles, and neither claims nor traces ever outnumber
    the units. -/
theorem Serial.one_claim_each (hserial : Serial allowCycles g) {roots : List String}
    (hroots : roots.Perm g.dependerUnits) :
    (g.auditInOrder roots).findings = (g.reports roots).foldl Findings.claim g.findings ∧
    (∀ before cycle later, g.reports roots = before ++ cycle :: later →
      ∃ offender, (before.foldl Findings.claim g.findings).Gains offender cycle) ∧
    (∀ cycle ∈ g.findings.claims.items, ∃ offender ∈ g.knownCyclers, ∃ others,
      cycle = offender :: (others ++ [offender])) ∧
    Set.BijOn (fun cycle => cycle.headD "") {cycle | cycle ∈ g.findings.claims.items}
      {unit | unit ∈ g.knownCyclers} ∧
    (∀ unit, unit ∈ g.knownCyclers ↔
      ∃ cycle ∈ g.findings.claims.items, cycle.head? = some unit) ∧
    (∀ unit ∈ g.knownCyclers, ∃ cycle, SimpleCycle g.dependencies cycle ∧ unit ∈ cycle) ∧
    g.cycles.length ≤ g.findings.claims.items.length ∧
    g.findings.claims.items.length + (g.reports roots).length ≤ g.size := by
  have hmatched := hserial.matched
  have hfresh := (fresh_reports hmatched roots).1
  refine ⟨by rw [auditInOrder_eq_foldl_reports], ?_, ?_, hserial.bijOn_first, ?_, ?_,
    hserial.length_cycles_le, ?_⟩
  · rintro before cycle later heq
    rw [heq] at hfresh
    obtain ⟨offender, _, hgains⟩ := hfresh.gains
    exact ⟨offender, hgains⟩
  · intro cycle hcycle
    obtain ⟨first, others, hfirst⟩ := (hmatched.simple cycle hcycle).closed
    have hknown := (hmatched.mem_known_iff first).mpr ⟨cycle, hcycle, by simp [hfirst]⟩
    exact ⟨first, mem_knownCyclers.mpr hknown, others, hfirst⟩
  · intro unit
    rw [mem_knownCyclers]
    exact hmatched.mem_known_iff unit
  · intro unit hunit
    exact (hserial.mem_units_of_known (mem_knownCyclers.mp hunit)).2
  · have hafter : Serial allowCycles (g.auditInOrder roots) := .tail hserial (.audit g hroots)
    have hbound := hafter.length_claims_le
    rw [auditInOrder_eq_foldl_reports] at hbound
    rw [← List.length_append, ← hfresh.foldl_claim.1]
    exact hbound

theorem Serial.one_claim_each_grownTangle :
    Serial true grownTangle ∧ ["c", "b", "a"].Perm grownTangle.dependerUnits ∧
    grownTangle.reports ["c", "b", "a"] = [["b", "c", "b"]] ∧
    (∃ offender, grownTangle.findings.Gains offender ["b", "c", "b"]) ∧
    Set.BijOn (fun cycle => cycle.headD "") {cycle | cycle ∈ grownTangle.findings.claims.items}
      {unit | unit ∈ grownTangle.knownCyclers} ∧
    (∃ cycle ∈ grownTangle.findings.claims.items, cycle.head? = some "a") ∧
    grownTangle.findings.claims.items.length + 1 ≤ grownTangle.size := by
  have hpair : Serial true (((empty true).add "a" "b").2.add "b" "a").2 :=
    ReflTransGen.refl.tail (.add _ "a" "b") |>.tail (.add _ "b" "a")
  have hroots : ["b", "a"].Perm (((empty true).add "a" "b").2.add "b" "a").2.dependerUnits := by
    decide
  have hserial : Serial true grownTangle :=
    ((hpair.tail (.audit _ hroots)).tail (.add _ "b" "c")).tail (.add _ "c" "b")
  have hagain : ["c", "b", "a"].Perm grownTangle.dependerUnits := by decide
  have hreports : grownTangle.reports ["c", "b", "a"] = [["b", "c", "b"]] := by decide
  obtain ⟨_, hgains, _, hbij, hheads, _, _, hbound⟩ := hserial.one_claim_each hagain
  rw [hreports] at hgains hbound
  exact ⟨hserial, hagain, hreports, hgains [] _ [] rfl, hbij, (hheads "a").mp (by decide), hbound⟩

end Graph

end ImportCycles
