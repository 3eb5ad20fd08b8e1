import ImportCycles.Graph.Findings
import ImportCycles.Proofs.FirstKept
import ImportCycles.Proofs.Rotation
import ImportCycles.Proofs.Graph.Cycle

namespace ImportCycles

namespace Audit

/-- What a task of an audit has still to do about a cycle that its walk has met. Other tasks may
    move before it gets to do so. -/
inductive Errand where
  | makeKnown (cycle : List String)
  | claim (cycle : List String)
  | record (cycle : List String)

namespace Errand

/-- The cycle that the errand is about. -/
def cycle : Errand → List String
  | makeKnown cycle => cycle
  | claim cycle => cycle
  | record cycle => cycle

end Errand

end Audit

theorem Circuit.opened_eq {edges : Table} {units : List String} (hcircuit : Circuit edges units) :
    Rotation.opened units = units.dropLast := by
  obtain ⟨⟨first, others, rfl⟩, _⟩ := hcircuit
  rw [Rotation.opened_closed, ← List.cons_append, List.dropLast_concat]

theorem Circuit.mem_opened_iff {edges : Table} {units : List String}
    (hcircuit : Circuit edges units) {unit : String} :
    unit ∈ Rotation.opened units ↔ unit ∈ units := by
  obtain ⟨⟨first, others, rfl⟩, _⟩ := hcircuit
  rw [Rotation.opened_closed]
  simp [or_comm]

/-- The key of a simple cycle says which cycle it is, up to where one starts along it. -/
theorem SimpleCycle.key_eq_iff {edges denser : Table} {cycle other : List String}
    (hcycle : SimpleCycle edges cycle) (hother : SimpleCycle denser other) :
    Rotation.key cycle = Rotation.key other ↔ cycle.dropLast.IsRotated other.dropLast := by
  have hnodup : (Rotation.opened cycle).Nodup := hcycle.opened_eq ▸ hcycle.distinct
  rw [Rotation.key_eq_key_iff hnodup, hcycle.opened_eq, hother.opened_eq]

namespace Findings

open Audit (Errand)

/-- The first of the three things that happen to a cycle that a walk has met. -/
def makeKnown (f : Findings) (cycle : List String) : Findings :=
  match cycle with
  | [] => f
  | offender :: _ => { f with knownCyclers := f.knownCyclers.insert offender }

theorem mem_makeKnown {f : Findings} {cycle : List String} {unit : String} :
    unit ∈ (f.makeKnown cycle).knownCyclers.items ↔
      unit ∈ f.knownCyclers.items ∨ cycle.head? = some unit := by
  cases cycle with
  | nil => simp [makeKnown]
  | cons offender rest =>
    simp only [makeKnown, FirstKept.mem_insert_self_key, List.head?_cons, Option.some.injEq]
    exact or_congr_right eq_comm

@[simp] theorem makeKnown_claims (f : Findings) (cycle : List String) :
    (f.makeKnown cycle).claims = f.claims := by
  cases cycle <;> rfl

@[simp] theorem makeKnown_traces (f : Findings) (cycle : List String) :
    (f.makeKnown cycle).traces = f.traces := by
  cases cycle <;> rfl

/-- To claim a cycle is to do the three things at once. -/
theorem claim_eq (f : Findings) (cycle : List String) :
    f.claim cycle =
      if f.claims.contains cycle = true then f.makeKnown cycle
      else
        { f.makeKnown cycle with
          claims := f.claims.insert cycle
          traces := f.traces.insert (Route.join cycle) } := by
  cases hold : f.claims.contains cycle with
  | true => cases cycle <;> simp [claim, makeKnown, FirstKept.add_of_contains hold]
  | false =>
    cases cycle <;>
      simp [claim, makeKnown, FirstKept.insert, FirstKept.add_of_not_contains hold]

theorem mem_claim {f : Findings} {cycle : List String} {unit : String} :
    unit ∈ (f.claim cycle).knownCyclers.items ↔
      unit ∈ f.knownCyclers.items ∨ cycle.head? = some unit := by
  rw [claim_eq]
  split <;> exact mem_makeKnown

/-- What holds of the findings at every moment of an audit. `pending` are the errands of its tasks:
    a claimed cycle may still wait for its trace, and a known unit for the claim of its cycle. -/
structure Sound (edges : Table) (pending : Errand → Prop) (f : Findings) : Prop where
  pendingSimple : ∀ errand, pending errand → SimpleCycle edges errand.cycle
  claimsSimple : ∀ cycle ∈ f.claims.items, SimpleCycle edges cycle
  claimsDistinct : f.claims.Distinct
  recordClaimed : ∀ cycle, pending (.record cycle) → cycle ∈ f.claims.items
  tracesClaimed : ∀ trace ∈ f.traces.items, ∃ cycle ∈ f.claims.items, Route.join cycle = trace
  claimsTraced : ∀ cycle ∈ f.claims.items,
    Route.join cycle ∈ f.traces.items ∨ pending (.record cycle)
  knownClaimed : ∀ unit ∈ f.knownCyclers.items,
    (∃ cycle ∈ f.claims.items, unit ∈ cycle) ∨ ∃ cycle, pending (.claim cycle) ∧ unit ∈ cycle

variable {edges : Table} {pending others : Errand → Prop} {f : Findings} {cycle : List String}

theorem Sound.congr {same : Errand → Prop} (hsound : f.Sound edges pending)
    (hsame : ∀ errand, same errand ↔ pending errand) : f.Sound edges same := by
  have heq : same = pending := funext fun errand => propext (hsame errand)
  exact heq ▸ hsound

theorem sound_empty (edges : Table) : ({} : Findings).Sound edges fun _ => False where
  pendingSimple := by simp
  claimsSimple := by simp
  claimsDistinct := .nil
  recordClaimed := by simp
  tracesClaimed := by simp
  claimsTraced := by simp
  knownClaimed := by simp

/-- New edges take no cycle away. -/
theorem Sound.mono {denser : Table} (hsound : f.Sound edges pending)
    (hsub : ∀ a b, edges.Edge a b → denser.Edge a b) : f.Sound denser pending :=
  { hsound with
    pendingSimple := fun errand h => (hsound.pendingSimple errand h).mono hsub
    claimsSimple := fun cycle h => (hsound.claimsSimple cycle h).mono hsub }

/-- A walk has met a cycle. -/
theorem Sound.meet (hsound : f.Sound edges others) (hcycle : SimpleCycle edges cycle) :
    f.Sound edges fun errand => some (.makeKnown cycle) = some errand ∨ others errand where
  pendingSimple := by
    rintro errand (hnext | hother)
    · obtain rfl := Option.some.inj hnext
      exact hcycle
    · exact hsound.pendingSimple errand hother
  claimsSimple := hsound.claimsSimple
  claimsDistinct := hsound.claimsDistinct
  recordClaimed := by simpa using hsound.recordClaimed
  tracesClaimed := hsound.tracesClaimed
  claimsTraced := by simpa using hsound.claimsTraced
  knownClaimed := by simpa using hsound.knownClaimed

/-- An errand that another one leads to is about the same cycle. -/
private theorem simple_of_next {done : Errand} {next : Option Errand}
    (hsimple : ∀ errand, (some done = some errand ∨ others errand) →
      SimpleCycle edges errand.cycle)
    (hsame : ∀ errand, next = some errand → errand.cycle = done.cycle) :
    ∀ errand, (next = some errand ∨ others errand) → SimpleCycle edges errand.cycle := by
  rintro errand (hnext | hother)
  · rw [hsame errand hnext]
    exact hsimple done (.inl rfl)
  · exact hsimple errand (.inr hother)

theorem Sound.makeKnown
    (hsound : f.Sound edges fun errand => some (.makeKnown cycle) = some errand ∨ others errand) :
    (f.makeKnown cycle).Sound edges fun errand =>
      some (.claim cycle) = some errand ∨ others errand := by
  obtain ⟨hpending, hclaims, hdistinct, hrecord, htraces, htraced, hknown⟩ := hsound
  simp only [Option.some.injEq, reduceCtorEq, false_or] at hrecord htraced hknown
  refine ⟨simple_of_next hpending ?_, by simpa using hclaims, by simpa using hdistinct,
    by simpa using hrecord, by simpa using htraces, by simpa using htraced, ?_⟩
  · rintro errand hnext
    obtain rfl := Option.some.inj hnext
    rfl
  · intro unit hunit
    rw [makeKnown_claims]
    rcases mem_makeKnown.mp hunit with hold | hhead
    · exact (hknown unit hold).imp_right fun ⟨other, hother, hmem⟩ => ⟨other, .inr hother, hmem⟩
    · exact .inr ⟨cycle, .inl rfl, List.mem_of_head? hhead⟩

theorem Sound.claimNew
    (hsound : f.Sound edges fun errand => some (.claim cycle) = some errand ∨ others errand)
    (hnew : f.claims.contains cycle = false) :
    { f with claims := f.claims.insert cycle }.Sound edges fun errand =>
      some (Errand.record cycle) = some errand ∨ others errand := by
  have hsimple : SimpleCycle edges cycle := hsound.pendingSimple (.claim cycle) (.inl rfl)
  have hmem : ∀ other, other ∈ (f.claims.insert cycle).items ↔
      other ∈ f.claims.items ∨ other = cycle := by
    simp [FirstKept.insert, FirstKept.add_of_not_contains hnew]
  obtain ⟨hpending, hclaims, hdistinct, hrecord, htraces, htraced, hknown⟩ := hsound
  simp only [Option.some.injEq, reduceCtorEq, false_or] at hrecord htraced
  refine ⟨simple_of_next hpending ?_, ?_, hdistinct.add cycle, ?_, ?_, ?_, ?_⟩
  · rintro errand hnext
    obtain rfl := Option.some.inj hnext
    rfl
  · intro other hother
    rcases (hmem other).mp hother with hold | rfl
    · exact hclaims other hold
    · exact hsimple
  · rintro other (heq | hother)
    · obtain rfl : cycle = other := by simpa using heq
      exact (hmem cycle).mpr (.inr rfl)
    · exact (hmem other).mpr (.inl (hrecord other hother))
  · intro trace htrace
    obtain ⟨other, hother, hjoin⟩ := htraces trace htrace
    exact ⟨other, (hmem other).mpr (.inl hother), hjoin⟩
  · intro other hother
    rcases (hmem other).mp hother with hold | rfl
    · exact (htraced other hold).imp_right .inr
    · exact .inr (.inl rfl)
  · intro unit hunit
    rcases hknown unit hunit with ⟨other, hother, hin⟩ | ⟨other, (heq | hother), hin⟩
    · exact .inl ⟨other, (hmem other).mpr (.inl hother), hin⟩
    · obtain rfl : cycle = other := by simpa using heq
      exact .inl ⟨cycle, (hmem cycle).mpr (.inr rfl), hin⟩
    · exact .inr ⟨other, .inr hother, hin⟩

/-- A rotation of the cycle is claimed already. It has the same units, so these stay accounted
    for. -/
theorem Sound.claimOld
    (hsound : f.Sound edges fun errand => some (.claim cycle) = some errand ∨ others errand)
    (hold : f.claims.contains cycle = true) :
    f.Sound edges fun errand => none = some errand ∨ others errand := by
  have hsimple : SimpleCycle edges cycle := hsound.pendingSimple (.claim cycle) (.inl rfl)
  obtain ⟨claimed, hclaimed, hkey⟩ := FirstKept.contains_iff.mp hold
  have hunits : ∀ unit ∈ cycle, unit ∈ claimed := by
    intro unit hunit
    have hopened := hsimple.mem_opened_iff.mpr hunit
    rw [← Rotation.mem_opened_of_key_eq hkey] at hopened
    exact (hsound.claimsSimple claimed hclaimed).mem_opened_iff.mp hopened
  obtain ⟨hpending, hclaims, hdistinct, hrecord, htraces, htraced, hknown⟩ := hsound
  simp only [Option.some.injEq, reduceCtorEq, false_or] at hrecord htraced
  refine ⟨simple_of_next hpending (by simp), hclaims, hdistinct, by simpa using hrecord, htraces,
    by simpa using htraced, ?_⟩
  intro unit hunit
  rcases hknown unit hunit with hdone | ⟨other, (heq | hother), hin⟩
  · exact .inl hdone
  · obtain rfl : cycle = other := by simpa using heq
    exact .inl ⟨claimed, hclaimed, hunits unit hin⟩
  · exact .inr ⟨other, .inr hother, hin⟩

theorem Sound.record
    (hsound : f.Sound edges fun errand => some (.record cycle) = some errand ∨ others errand) :
    { f with traces := f.traces.insert (Route.join cycle) }.Sound edges fun errand =>
      none = some errand ∨ others errand := by
  obtain ⟨hpending, hclaims, hdistinct, hrecord, htraces, htraced, hknown⟩ := hsound
  simp only [Option.some.injEq, reduceCtorEq, false_or] at hknown
  refine ⟨simple_of_next hpending (by simp), hclaims, hdistinct,
    by simpa using fun other hother => hrecord other (.inr hother), ?_, ?_, by simpa using hknown⟩
  · intro trace htrace
    rcases FirstKept.mem_insert_self_key.mp htrace with htrace | rfl
    · exact htraces trace htrace
    · exact ⟨cycle, hrecord cycle (.inl rfl), rfl⟩
  · intro other hother
    rcases htraced other hother with hold | (heq | hpending)
    · exact .inl (FirstKept.mem_insert_self_key.mpr (.inl hold))
    · obtain rfl : cycle = other := by simpa using heq
      exact .inl (FirstKept.mem_insert_self_key.mpr (.inr rfl))
    · exact .inr (.inr hpending)

end Findings

end ImportCycles
