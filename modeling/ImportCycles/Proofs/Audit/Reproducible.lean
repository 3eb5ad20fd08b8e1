import ImportCycles.Proofs.Audit.Serial
import ImportCycles.Proofs.Graph.Filling
import ImportCycles.Proofs.Graph.Log
import ImportCycles.Proofs.Report.Order

namespace ImportCycles

/-- Tables with the same keys and the same names in each row, in whatever order. -/
structure Table.Alike (t u : Table) : Prop where
  keys_perm : t.keys.Perm u.keys
  row_perm : ∀ key, (t.row key).Perm (u.row key)
  size_eq : t.size = u.size

variable {t u : Table}

/-- Tables that hold the same edges are alike. -/
theorem Table.Lists.alike {log other : List (String × String)} (hlists : t.Lists log)
    (hother : u.Lists other) (hperm : log.Perm other) : t.Alike u where
  keys_perm := by
    refine (List.perm_ext_iff_of_nodup hlists.keysNodup hother.keysNodup).mpr fun key => ?_
    rw [hlists.mem_keys_iff, hother.mem_keys_iff, (hperm.map _).mem_iff]
  row_perm key := by
    rw [hlists.row_eq, hother.row_eq]
    exact (hperm.filter _).map _
  size_eq := by rw [hlists.size_eq, hother.size_eq, hperm.length_eq]

namespace Walk

theorem frameOf_congr (halike : t.Alike u) : frameOf t = frameOf u :=
  funext fun unit => sortNames_congr (halike.row_perm unit)

/-- Tables that are alike take a walk through the same steps. -/
theorem step_congr (halike : t.Alike u) (mode : Mode) (prune : Bool) :
    step mode prune t = step mode prune u := by
  funext s
  simp only [step, visit, frameOf_congr halike]

theorem run_congr (halike : t.Alike u) (mode : Mode) (prune : Bool) (n : Nat) (s : State) :
    run mode prune t n s = run mode prune u n s := by
  induction n generalizing s with
  | zero => rfl
  | succ n ih => simp only [run, step_congr halike, ih]

theorem explore_congr (halike : t.Alike u) (mode : Mode) (known : List String) (origin : String) :
    explore mode t known origin = explore mode u known origin := by
  simp only [explore, bound, start, halike.size_eq, frameOf_congr halike, run_congr halike]

theorem firstCycle?_congr (halike : t.Alike u) (origin : String) :
    firstCycle? t origin = firstCycle? u origin := by
  rw [firstCycle?, firstCycle?, explore_congr halike]

theorem cyclesFrom_congr (halike : t.Alike u) (known : List String) (origin : String) :
    cyclesFrom t known origin = cyclesFrom u known origin := by
  rw [cyclesFrom, cyclesFrom, explore_congr halike]

end Walk

theorem Audit.afterWalk_congr (halike : t.Alike u) : afterWalk t = afterWalk u := by
  funext f root
  simp only [afterWalk, Walk.cyclesFrom_congr halike]

namespace Graph

variable {g h : Graph} {edges others : List (String × String)}

theorem findCycle_congr (halike : g.dependencies.Alike h.dependencies) (unit : String) :
    g.findCycle unit = h.findCycle unit := by
  rw [findCycle, findCycle, Walk.firstCycle?_congr halike]

theorem dependerUnits_congr (halike : g.dependencies.Alike h.dependencies) :
    g.dependerUnits = h.dependerUnits :=
  sortNames_congr halike.keys_perm

theorem dependencies_audit (g : Graph) : g.audit.dependencies = g.dependencies := by
  rw [audit, auditInOrder_eq]

/-- Graphs with the same edges that have found the same find the same in their next audits. -/
theorem findings_audit_congr (halike : g.dependencies.Alike h.dependencies)
    (hfindings : g.findings = h.findings) : g.audit.findings = h.audit.findings := by
  rw [audit, audit, auditInOrder_eq, auditInOrder_eq, dependerUnits_congr halike]
  simp only [Audit.afterWalk_congr halike, hfindings]

/-- The log of a lenient graph takes in every edge that is named at both ends. -/
theorem mem_extendLog (hlenient : g.allowCycles = true) (log : List (String × String))
    (new edge : String × String) :
    edge ∈ extendLog log (g.add new.1 new.2).1 new ↔
      edge ∈ log ∨ (edge = new ∧ new.1 ≠ "" ∧ new.2 ≠ "") := by
  have hadded := added_add g new.1 new.2
  unfold extendLog
  by_cases hnamed : new.1 ≠ "" ∧ new.2 ≠ ""
  · have haccepted : (g.add new.1 new.2).1 = none := by
      by_contra hrefused
      obtain ⟨hguard, -⟩ := hadded.closesCycle_of_refused hnamed.1 hnamed.2 hrefused
      simp [hlenient] at hguard
    by_cases hold : new ∈ log
    · rw [if_neg (by simp [hold])]
      refine ⟨.inl, ?_⟩
      rintro (hmem | ⟨rfl, -⟩)
      · exact hmem
      · exact hold
    · rw [if_pos ⟨haccepted, hold⟩, List.mem_append, List.mem_singleton]
      simp [hnamed]
  · have hrefused : (g.add new.1 new.2).1 ≠ none := by
      rw [hadded.eq_emptyName_iff.mpr (by tauto)]
      exact Option.some_ne_none _
    rw [if_neg fun haccepted => hrefused haccepted.1]
    simp [hnamed]

/-- A lenient graph stores just the named ones of the edges that are added to it. -/
theorem exists_stores_addAll (edges : List (String × String)) :
    ((empty true).addAll edges).2.allowCycles = true ∧
      ((empty true).addAll edges).2.findings = {} ∧
      ∃ log, ((empty true).addAll edges).2.Stores log ∧
        ∀ edge, edge ∈ log ↔ edge ∈ edges ∧ edge.1 ≠ "" ∧ edge.2 ≠ "" := by
  induction edges using List.reverseRecOn with
  | nil => exact ⟨rfl, rfl, [], stores_empty true, by simp⟩
  | append_singleton edges new ih =>
    obtain ⟨hlenient, hfindings, log, hstores, hlog⟩ := ih
    have hadded := added_add ((empty true).addAll edges).2 new.1 new.2
    rw [addAll_concat]
    refine ⟨hadded.same_allowCycles.trans hlenient, hadded.same_findings.trans hfindings, _,
      hstores.add new.1 new.2, fun edge => ?_⟩
    rw [mem_extendLog hlenient, hlog, List.mem_append, List.mem_singleton, or_and_right]
    refine or_congr_right (and_congr_right fun heq => ?_)
    rw [heq]

/-- Sequences of insertions with the same edges lead to tables that are alike. -/
theorem alike_addAll (hsame : ∀ edge, edge ∈ edges ↔ edge ∈ others) :
    ((empty true).addAll edges).2.dependencies.Alike
      ((empty true).addAll others).2.dependencies := by
  obtain ⟨-, -, log, hstores, hlog⟩ := exists_stores_addAll edges
  obtain ⟨-, -, other, hstores', hother⟩ := exists_stores_addAll others
  have hperm : log.Perm other := by
    refine (List.perm_ext_iff_of_nodup hstores.nodup hstores'.nodup).mpr fun edge => ?_
    rw [hlog, hother, hsame]
  exact hstores.dependencies.alike hstores'.dependencies hperm

/-- Audits are reproducible. Two new lenient graphs that were given the same edges, in any order and
    any number of times, give the same answers: their audits find the same, cycle by cycle and in
    the same rotations, a search from any unit ends at the same cycle, and the reports of the
    recorded cycles are the same texts, in whatever order they are handed the cycles. -/
theorem audit_reproducible (hsame : ∀ edge, edge ∈ edges ↔ edge ∈ others) :
    let g := ((empty true).addAll edges).2
    let h := ((empty true).addAll others).2
    g.audit.findings = h.audit.findings ∧
      g.audit.cycles = h.audit.cycles ∧
      g.audit.allClear = h.audit.allClear ∧
      g.audit.knownCyclers = h.audit.knownCyclers ∧
      (∀ unit, g.findCycle unit = h.findCycle unit ∧
        g.audit.findCycle unit = h.audit.findCycle unit) ∧
      ∀ traces more, traces.Perm g.audit.cycles → more.Perm h.audit.cycles →
        Report.text traces [] = Report.text more [] ∧
        ∀ orientation, Report.flowchart g.audit traces orientation true =
          Report.flowchart h.audit more orientation true := by
  intro g h
  have halike : g.dependencies.Alike h.dependencies := alike_addAll hsame
  have hunaudited : g.findings = h.findings := by
    obtain ⟨-, hg, -⟩ := exists_stores_addAll edges
    obtain ⟨-, hh, -⟩ := exists_stores_addAll others
    exact hg.trans hh.symm
  have hfindings := findings_audit_congr halike hunaudited
  have hcycles : g.audit.cycles = h.audit.cycles := by rw [cycles, cycles, hfindings]
  have haudited : g.audit.dependencies.Alike h.audit.dependencies := by
    rwa [dependencies_audit, dependencies_audit]
  refine ⟨hfindings, hcycles, ?_, ?_, ?_, ?_⟩
  · rw [allClear, allClear, hcycles]
  · rw [knownCyclers, knownCyclers, hfindings]
  · exact fun unit => ⟨findCycle_congr halike unit, findCycle_congr haudited unit⟩
  · intro traces more htraces hmore
    have hperm : traces.Perm more := by
      rw [hcycles] at htraces
      exact htraces.trans hmore.symm
    refine ⟨Report.text_congr hperm [], fun orientation => ?_⟩
    exact Report.flowchart_congr (fun _ => hperm.mem_iff) orientation

/-- Three cycles that overlap, their edges once in order and once backwards with a repetition. The
    rows differ, but of the three it is the same one that is reported, from the same unit on. -/
theorem audit_reproducible_overlapping :
    let edges := [("a", "b"), ("b", "a"), ("b", "c"), ("c", "b"), ("c", "a")]
    let others := edges.reverse ++ [("b", "c")]
    let g := ((empty true).addAll edges).2
    let h := ((empty true).addAll others).2
    g.dependents "b" ≠ h.dependents "b" ∧ h.audit.cycles = ["b -> a -> b"] ∧
      Report.text h.audit.cycles [] = "1 dependency cycle(s) detected:\n  b -> a -> b" := by
  intro edges others g h
  have hsame : ∀ edge, edge ∈ edges ↔ edge ∈ others := by
    simp only [edges, others, List.mem_append, List.mem_reverse]
    simp
  obtain ⟨-, hcycles, -, -, -, hreports⟩ := audit_reproducible hsame
  obtain ⟨htext, -⟩ := hreports _ _ (.refl _) (.refl _)
  rw [← htext, ← hcycles]
  decide

end Graph

end ImportCycles
