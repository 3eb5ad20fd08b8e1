import ImportCycles.CommandLine.Run
import ImportCycles.Proofs.Build.Verdict
import ImportCycles.Proofs.Report.Spelling

namespace ImportCycles

variable {fits : Char → Prop}

/-- The cycles that audits recorded are spelled, since each unit on them is the end of an edge. -/
theorem Graph.WellFormed.spelled_cycles {g : Graph} (hwell : g.WellFormed)
    (hascii : ∀ c : Char, c.toNat < 128 → fits c)
    (hends : ∀ a b, g.dependencies.Edge a b → Spelled fits b) :
    ∀ trace ∈ g.cycles, Spelled fits trace := by
  intro trace htrace
  obtain ⟨cycle, hcycle, rfl⟩ := hwell.mem_cycles_iff.mp htrace
  refine (spelled_join hascii).mpr fun unit hunit => ?_
  obtain ⟨before, hedge⟩ := (hwell.findings.claimsSimple cycle hcycle).exists_edge hunit
  exact hends before unit hedge

namespace CommandLine

/-- Texts leave the program character by character: one has a form outside exactly if all its
    characters do, and those of ASCII do. -/
structure Encoding.Spells (e : Encoding) (fits : Char → Prop) : Prop where
  bytes_isSome_iff : ∀ text, (e.bytes text).isSome = true ↔ Spelled fits text
  printable_iff : ∀ text, e.printable text = true ↔ Spelled fits text
  ascii : ∀ c : Char, c.toNat < 128 → fits c

theorem Encoding.utf8_spells : Encoding.utf8.Spells fun _ => True where
  bytes_isSome_iff _ := iff_of_true rfl fun _ _ => trivial
  printable_iff _ := iff_of_true rfl fun _ _ => trivial
  ascii _ _ := trivial

variable {allowCycles : Bool} {sources : List Java.Source} {r : Build.Result} {after : Graph}

/-- Where all that files refer to is spelled, a report is spelled, unless it is a chart of the whole
    graph and a file that imports another is not. A guard against cycles makes no difference: it
    refuses only edges from units that others refer to. -/
theorem spelled_report_iff (hascii : ∀ c : Char, c.toNat < 128 → fits c)
    (hreferences : ∀ source ∈ sources, ∀ name ∈ source.references, Spelled fits name)
    (hnamed : ∀ source ∈ sources, ∀ name ∈ source.references, name ≠ "")
    (hbuilt : Build.Built allowCycles sources r) (haudit : r.graph.Audited after) (a : Arguments) :
    Spelled fits (report a after r.rejected) ↔
      (a.format = .flowchart → Spelled fits a.orientation ∧
        (a.fullGraph = true → ∀ x y, Build.Imports sources x y → Spelled fits x)) := by
  obtain ⟨order, hedges, hcovers⟩ := hbuilt.covers hnamed
  have hends : ∀ x y, (x, y) ∈ order → Spelled fits y := by
    intro x y hedge
    obtain ⟨source, hsource, -, -, hy, -⟩ := (hedges x y).mp hedge
    exact hreferences source hsource y hy
  have hreach : Graph.Reachable allowCycles after :=
    hcovers.reachable.leads (.single (.audit haudit))
  obtain ⟨-, hsame, -⟩ := haudit.same_tables
  have hstored : ∀ x y, after.dependencies.Edge x y → (x, y) ∈ order := by
    rw [hsame]
    exact hcovers.stored
  have hcycles : ∀ trace ∈ after.cycles, Spelled fits trace :=
    hreach.wellFormed.spelled_cycles hascii fun x y hedge => hends x y (hstored x y hedge)
  have hrejected : ∀ trace ∈ r.rejected, Spelled fits trace := by
    intro trace htrace
    obtain ⟨cycle, rfl, hunits⟩ := hcovers.told trace htrace
    refine (spelled_join hascii).mpr fun unit hunit => ?_
    obtain ⟨before, hedge⟩ := hunits unit hunit
    exact hends before unit hedge
  unfold report
  cases a.format with
  | text => exact iff_of_true (Report.spelled_text hascii hcycles hrejected) nofun
  | json => exact iff_of_true (Report.spelled_json hascii after _ _ _ _) nofun
  | flowchart =>
    have hall : ∀ trace ∈ sortDistinct (after.cycles ++ r.rejected), Spelled fits trace :=
      fun trace htrace =>
        (List.mem_append.mp (mem_sortDistinct.mp htrace)).elim (hcycles trace) (hrejected trace)
    rw [Report.spelled_flowchart hascii hall, Bool.not_eq_false', forall_prop_of_true rfl]
    refine and_congr_right fun _ => forall_congr' fun _ => ⟨fun hdrawn x y himport => ?_, ?_⟩
    · rcases hcovers.kept x y ((hedges x y).mpr himport) with hkept | ⟨before, hedge⟩
      · exact (hdrawn (x, y) (hreach.mem_edges_iff.mpr (hsame ▸ hkept))).1
      · exact hends before x hedge
    · rintro hwhole ⟨x, y⟩ hdrawn
      have hedge := hstored x y (hreach.mem_edges_iff.mp hdrawn)
      exact ⟨hwhole x y ((hedges x y).mp hedge), hends x y hedge⟩

end CommandLine

end ImportCycles
