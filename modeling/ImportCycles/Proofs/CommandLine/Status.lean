import ImportCycles.Proofs.CommandLine.Ends
import ImportCycles.Proofs.CommandLine.Spelling
import ImportCycles.Settings.Formats

namespace ImportCycles

/-- Settings without the guard against cycles. -/
def Settings.unguarded (settings : Settings) : Settings :=
  { settings with allowCycles := true }

/-- Whether a file can be written does not depend on what is written. -/
theorem Disk.write_isOk (d : Disk) (p : Path) (bytes others : List UInt8) :
    (d.write p bytes).map (fun _ => ()) = (d.write p others).map fun _ => () := by
  unfold Disk.write
  cases d.locate p with
  | absent place name => rfl
  | fault reason => rfl
  | found place links =>
    dsimp only
    split <;> rfl

namespace CommandLine

open Settings (Formats resolve unguarded)

variable {formats : Formats} {e : Encoding} {fits : Char → Prop} {d : Disk} {a b : Arguments}
  {settings : Settings}

theorem resolve_unguarded (formats : Formats) (d : Disk) (a : Arguments) (strict : Bool) :
    (resolve formats d { a with strict }).map unguarded =
      (resolve formats d a).map unguarded := by
  unfold resolve
  dsimp only
  cases Settings.base formats d a.config with
  | error failure => rfl
  | ok base =>
    have hnamed : Settings.namedRoots d { a with strict } = Settings.namedRoots d a := rfl
    rw [hnamed]
    cases Settings.namedRoots d a with
    | error failure => rfl
    | ok roots => rfl

theorem obstacle?_unguarded (settings : Settings) :
    obstacle? settings.unguarded = obstacle? settings := rfl

theorem complain_status (d : Disk) (complaint other : String) :
    (.ok (complain d complaint) : Except Stop Outcome).map (·.status) =
      (.ok (complain d other) : Except Stop Outcome).map (·.status) := rfl

theorem writeReport_status {text other : String}
    (halike : (e.bytes text).isSome = (e.bytes other).isSome) (d : Disk) (path : Path)
    (status : Nat) :
    (writeReport e d path status text).map (·.status) =
      (writeReport e d path status other).map (·.status) := by
  have hwrite := d.write_isOk path ((e.bytes text).getD []) ((e.bytes other).getD [])
  unfold writeReport
  rw [halike]
  cases hleft : d.write path ((e.bytes text).getD []) with
  | ok disk =>
    cases hright : d.write path ((e.bytes other).getD []) with
    | ok disk =>
      dsimp only
      split <;> rfl
    | error fault => simp [hleft, hright, Except.map] at hwrite
  | error fault =>
    cases hright : d.write path ((e.bytes other).getD []) with
    | ok disk => simp [hleft, hright, Except.map] at hwrite
    | error other =>
      obtain rfl : fault = other := by simpa [hleft, hright, Except.map] using hwrite
      cases fault <;> rfl

/-- The status after handing over a report depends on neither the report nor the form it has, if
    only there is one. -/
theorem deliver_status (hspells : e.Spells fits) (hout : a.output = b.output) (status : Nat)
    {text other : String} (halike : Spelled fits text ↔ Spelled fits other) :
    (deliver e d a status text).map (·.status) = (deliver e d b status other).map (·.status) := by
  have hlines : Spelled fits (text ++ "\n") ↔ Spelled fits (other ++ "\n") := by
    rw [spelled_append, spelled_append, halike]
  have hbytes : (e.bytes (text ++ "\n")).isSome = (e.bytes (other ++ "\n")).isSome := by
    rw [Bool.eq_iff_iff, hspells.bytes_isSome_iff, hspells.bytes_isSome_iff, hlines]
  have hprintable : e.printable (text ++ "\n") = e.printable (other ++ "\n") := by
    rw [Bool.eq_iff_iff, hspells.printable_iff, hspells.printable_iff, hlines]
  unfold deliver
  rw [hout]
  cases b.output.filter (!·.isEmpty) with
  | none =>
    dsimp only
    unfold printReport
    rw [hprintable]
    split <;> rfl
  | some file => exact writeReport_status hbytes d _ status

theorem status_of_deliver {status : Nat} {text : String} {outcome : Outcome}
    (hdeliver : deliver e d a status text = .ok outcome) (hquiet : outcome.complaint = none) :
    outcome.status = status := by
  unfold deliver printReport writeReport at hdeliver
  split at hdeliver
  · split at hdeliver
    · cases hdeliver
      rfl
    · cases hdeliver
  · split at hdeliver
    · cases hdeliver
    · cases hdeliver
      cases hquiet
    · split at hdeliver
      · cases hdeliver
        rfl
      · cases hdeliver

variable {last other : Except Stop Outcome}

/-- All that the files of some settings refer to has a form outside. -/
def Referable (fits : Char → Prop) (d : Disk) (settings : Settings) : Prop :=
  ∀ source ∈ Build.scanned d settings.filter settings.roots, ∀ name ∈ source.references,
    Spelled fits name

/-- With settings that differ in the guard alone, scans fail on the same roots and tell of cycles
    alike. -/
theorem ScanEnds.status_eq (hspells : e.Spells fits) {unlike : Settings}
    (hsettings : settings.unguarded = unlike.unguarded) (hsame : { a with strict := b.strict } = b)
    (hready : obstacle? settings = none) (hreferable : Referable fits d settings)
    (hlast : ScanEnds e d a settings last) (hother : ScanEnds e d b unlike other) :
    last.map (·.status) = other.map (·.status) := by
  obtain ⟨hroots, hfilter, -⟩ := Settings.mk.inj hsettings
  have hscanned : Build.scanned d unlike.filter unlike.roots =
      Build.scanned d settings.filter settings.roots := by
    rw [hroots, hfilter]
  have hfailures : Build.failures d unlike.filter unlike.roots =
      Build.failures d settings.filter settings.roots := by
    rw [hroots, hfilter]
  have hreadyToo : obstacle? unlike = none := by
    rwa [← obstacle?_unguarded, ← hsettings, obstacle?_unguarded]
  rcases hlast.failed_or_reported hready with ⟨hfails, rfl⟩ | ⟨r, after, hnone, hbuilt, haudit, rfl⟩
  · rcases hother.failed_or_reported hreadyToo with ⟨-, rfl⟩ | ⟨_, _, hnone, -⟩
    · exact complain_status d _ _
    · exact absurd (hfailures ▸ hnone) hfails
  · rcases hother.failed_or_reported hreadyToo with
      ⟨hfails, -⟩ | ⟨r', after', _, hbuilt', haudit', rfl⟩
    · exact absurd hnone (hfailures ▸ hfails)
    · rw [hscanned] at hbuilt'
      have hnamed := fun source =>
        @Build.ne_empty_of_mem_scanned d settings.filter settings.roots source
      have htells := hbuilt.tellsCycle_iff hnamed haudit
      have htells' := hbuilt'.tellsCycle_iff hnamed haudit'
      have hreport := spelled_report_iff hspells.ascii hreferable hnamed hbuilt haudit a
      have hreport' := spelled_report_iff hspells.ascii hreferable hnamed hbuilt' haudit' b
      have hfail : b.failOnCycles = a.failOnCycles := by rw [← hsame]
      have halike : Spelled fits (report a after r.rejected) ↔
          Spelled fits (report b after' r'.rejected) := by
        rw [hreport, hreport', ← hsame]
      rw [Bool.eq_iff_iff.mpr (htells.trans htells'.symm), hfail]
      exact deliver_status hspells (by rw [← hsame]) _ halike

theorem Ends.status_eq (hspells : e.Spells fits) (hsame : { a with strict := b.strict } = b)
    (hreferable : ∀ settings, resolve formats d a = .ok settings → Referable fits d settings)
    (hlast : Ends formats e d a last) (hother : Ends formats e d b other) :
    last.map (·.status) = other.map (·.status) := by
  have hresolve := resolve_unguarded formats d a b.strict
  rw [hsame] at hresolve
  unfold Ends at hlast hother
  cases ha : resolve formats d a with
  | error failure =>
    cases hb : resolve formats d b with
    | ok settings => simp [ha, hb, Except.map] at hresolve
    | error failure' =>
      obtain rfl : failure' = failure := by simpa [ha, hb, Except.map] using hresolve
      rw [ha] at hlast
      rw [hb] at hother
      cases failure' with
      | problem problem => rw [hlast, hother]
      | breach breach => rw [hlast, hother]
  | ok settings =>
    cases hb : resolve formats d b with
    | error failure => simp [ha, hb, Except.map] at hresolve
    | ok unlike =>
      have hsettings : settings.unguarded = unlike.unguarded := by
        simpa [ha, hb, Except.map] using hresolve.symm
      have hobstacle : obstacle? unlike = obstacle? settings := by
        rw [← obstacle?_unguarded, ← hsettings, obstacle?_unguarded]
      rw [ha] at hlast
      rw [hb] at hother
      dsimp only at hlast hother
      rw [hobstacle] at hother
      cases hfound : obstacle? settings with
      | some obstacle =>
        rw [hfound] at hlast hother
        rw [hlast, hother]
      | none =>
        rw [hfound] at hlast hother
        exact hlast.status_eq hspells hsettings hsame hfound (hreferable settings ha) hother

variable {outcome : Outcome}

theorem ok_ne_complain (hquiet : outcome.complaint = none) (d : Disk) (complaint : String) :
    (.ok outcome : Except Stop Outcome) ≠ .ok (complain d complaint) := by
  intro hcomplains
  injection hcomplains with houtcome
  rw [houtcome] at hquiet
  cases hquiet

theorem ScanEnds.status_iff (hends : ScanEnds e d a settings (.ok outcome))
    (hready : obstacle? settings = none) (hfail : a.failOnCycles = true)
    (hquiet : outcome.complaint = none) :
    (outcome.status = cyclesStatus ↔
      ¬ Acyclic (Build.Imports (Build.scanned d settings.filter settings.roots))) ∧
    (outcome.status = 0 ↔
      Acyclic (Build.Imports (Build.scanned d settings.filter settings.roots))) := by
  rcases hends.failed_or_reported hready with ⟨-, hlast⟩ | ⟨r, after, hnone, hbuilt, haudit, hlast⟩
  · exact absurd hlast (ok_ne_complain hquiet d _)
  · have hstatus := status_of_deliver hlast.symm hquiet
    have htells := hbuilt.tellsCycle_iff (fun _ => Build.ne_empty_of_mem_scanned) haudit
    rw [hfail, Bool.true_and] at hstatus
    rw [hstatus, ← htells, ← not_iff_not (b := Acyclic _), ← htells]
    cases r.tellsCycle after with
    | true => simp [cyclesStatus]
    | false => simp [cyclesStatus]

/-- A program that is asked to fail on cycles, and gets to report, ends with the status for cycles
    exactly if the scanned files import one another in a circle, and else with zero. -/
theorem Ends.status_iff (hends : Ends formats e d a (.ok outcome))
    (hfail : a.failOnCycles = true) (hquiet : outcome.complaint = none) :
    ∃ settings, resolve formats d a = .ok settings ∧
      (outcome.status = cyclesStatus ↔
        ¬ Acyclic (Build.Imports (Build.scanned d settings.filter settings.roots))) ∧
      (outcome.status = 0 ↔
        Acyclic (Build.Imports (Build.scanned d settings.filter settings.roots))) := by
  unfold Ends at hends
  cases hresolve : resolve formats d a with
  | error failure =>
    rw [hresolve] at hends
    cases failure with
    | breach breach => cases hends
    | problem problem => exact absurd hends (ok_ne_complain hquiet d _)
  | ok settings =>
    rw [hresolve] at hends
    dsimp only at hends
    cases hobstacle : obstacle? settings with
    | some obstacle =>
      rw [hobstacle] at hends
      exact absurd hends (ok_ne_complain hquiet d _)
    | none =>
      rw [hobstacle] at hends
      exact ⟨settings, rfl, hends.status_iff hobstacle hfail hquiet⟩

/-- Command lines that differ in the guard alone end with the same status, however the threads take
    turns. When cycles are to fail and there is a report, it tells whether the imports of the
    scanned files run in a circle. All that is read from files has a form outside, but the name of a
    file need not have one. -/
theorem run_status_exact (formats : Formats) (hspells : e.Spells fits) (d : Disk)
    {args others : List String} (hargs : parse args = .ok a) (hothers : parse others = .ok b)
    (hsame : { a with strict := b.strict } = b)
    (hreferable : ∀ settings, resolve formats d a = .ok settings → Referable fits d settings) :
    (run formats e d args).map (·.status) = (run formats e d others).map (·.status) ∧
      Ends formats e d a (run formats e d args) ∧
      (∀ last other, Ends formats e d a last → Ends formats e d b other →
        last.map (·.status) = other.map (·.status)) ∧
      (a.failOnCycles = true → ∀ outcome, Ends formats e d a (.ok outcome) →
        outcome.complaint = none →
        ∃ settings, resolve formats d a = .ok settings ∧
          (outcome.status = 2 ↔
            ¬ Acyclic (Build.Imports (Build.scanned d settings.filter settings.roots))) ∧
          (outcome.status = 0 ↔
            Acyclic (Build.Imports (Build.scanned d settings.filter settings.roots)))) := by
  have hrun : Ends formats e d a (run formats e d args) := ends_run hargs
  refine ⟨hrun.status_eq hspells hsame hreferable (ends_run hothers), hrun, ?_, ?_⟩
  · intro last other hlast hother
    exact hlast.status_eq hspells hsame hreferable hother
  · intro hfail outcome hends hquiet
    exact hends.status_iff hfail hquiet

/-- Two files that import each other. -/
def pairOnDisk : Disk where
  top := .dir [("src", .dir [
    ("A.java", .file ("package p;\nimport p.B;".toList.map (·.toNat.toUInt8))),
    ("B.java", .file ("package p;\nimport p.A;".toList.map (·.toNat.toUInt8)))])]

theorem run_status_exact_pairOnDisk :
    (run .standard .utf8 pairOnDisk ["src", "--fail-on-cycles"]).map (·.status) = .ok 2 ∧
      (run .standard .utf8 pairOnDisk ["src", "--fail-on-cycles", "--strict"]).map (·.status) =
        .ok 2 ∧
      ¬ Acyclic (Build.Imports (Build.scanned pairOnDisk {} ["src"])) := by
  have hargs : parse ["src", "--fail-on-cycles"] =
      .ok { roots := ["src"], failOnCycles := true } := by decide
  have hothers : parse ["src", "--fail-on-cycles", "--strict"] =
      .ok { roots := ["src"], failOnCycles := true, strict := true } := by decide
  obtain ⟨hequal, hends, _, hexact⟩ := run_status_exact .standard Encoding.utf8_spells pairOnDisk
    hargs hothers rfl fun _ _ _ _ _ _ _ _ => trivial
  have hrun : run .standard .utf8 pairOnDisk ["src", "--fail-on-cycles"] = .ok {
      status := 2
      output := "1 dependency cycle(s) detected:\n  p.B -> p.A -> p.B\n"
      disk := pairOnDisk } := rfl
  have hresolved : resolve .standard pairOnDisk { roots := ["src"], failOnCycles := true } =
      .ok { roots := ["src"] } := rfl
  rw [hrun] at hequal hends
  obtain ⟨settings, hresolve, hcyclic, _⟩ := hexact rfl _ hends rfl
  rw [hresolved] at hresolve
  cases hresolve
  rw [hrun]
  exact ⟨rfl, hequal.symm, hcyclic.mp rfl⟩

end CommandLine

end ImportCycles
