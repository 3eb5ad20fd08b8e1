import ImportCycles.Proofs.Build.Verdict

namespace ImportCycles

namespace Build

variable {d : Disk} {f : SearchFilter} {roots others : List String} {root : String} {r : Result}
  {sources : List Java.Source} {a b : String}

/-- The files that the search below a root finds; none if it fails. -/
def filesBelow (d : Disk) (f : SearchFilter) (root : String) : List Path :=
  (d.files f (Path.ofString root)).toOption.getD []

/-- A file below one of the roots is named `a` and imports the name `b`. -/
def ImportBelow (d : Disk) (f : SearchFilter) (roots : List String) (a b : String) : Prop :=
  ∃ root ∈ roots, ∃ path ∈ filesBelow d f root, ∃ bytes, d.read path = .ok bytes ∧
    (Java.scan path bytes).name = a ∧ a ≠ "" ∧ b ∈ (Java.scan path bytes).references ∧ b ≠ a

/-- No file that a search finds is lost on the way to its source. -/
theorem sourcesBelow_eq (hproper : d.top.Proper) (hreadable : d.Readable (Path.ofString root))
    (f : SearchFilter) :
    ∃ sources, sourcesBelow d f root = .ok sources ∧
      sources.length = (filesBelow d f root).length ∧
      ∀ source, source ∈ sources ↔ ∃ path ∈ filesBelow d f root, ∃ bytes,
        d.read path = .ok bytes ∧ Java.scan path bytes = source := by
  obtain ⟨paths, hpaths⟩ := hreadable.files_isOk hproper f
  obtain ⟨sources, hsources⟩ := exists_sourcesBelow hproper hpaths
  have hbelow : filesBelow d f root = paths := by
    rw [filesBelow, hpaths]
    rfl
  have hscans := hsources
  rw [sourcesBelow_of_files hpaths] at hscans
  refine ⟨sources, hsources, ?_, fun source => ?_⟩
  · simpa [hbelow] using (congrArg List.length (mapM_eq_ok_iff.mp hscans)).symm
  · simp only [mem_of_mapM_eq_ok hscans, sourceIn_eq_ok_iff, hbelow]

theorem failures_eq_nil (hproper : d.top.Proper)
    (hreadable : ∀ root ∈ roots, d.Readable (Path.ofString root)) : failures d f roots = [] := by
  rw [failures, List.flatMap_eq_nil_iff]
  intro root hroot
  obtain ⟨sources, hsources, -⟩ := sourcesBelow_eq hproper (hreadable root hroot) f
  rw [hsources]

theorem length_scanned (hproper : d.top.Proper)
    (hreadable : ∀ root ∈ roots, d.Readable (Path.ofString root)) :
    (scanned d f roots).length = (roots.map fun root => (filesBelow d f root).length).sum := by
  rw [scanned, List.length_flatMap]
  refine congrArg List.sum (List.map_congr_left ?_)
  intro root hroot
  obtain ⟨sources, hsources, hlength, -⟩ := sourcesBelow_eq hproper (hreadable root hroot) f
  simp [hsources, hlength, Except.toOption]

theorem imports_scanned_iff (hproper : d.top.Proper)
    (hreadable : ∀ root ∈ roots, d.Readable (Path.ofString root)) :
    Imports (scanned d f roots) a b ↔ ImportBelow d f roots a b := by
  simp only [Imports, ImportBelow, mem_scanned_iff]
  constructor
  · rintro ⟨source, ⟨root, hroot, found, hfound, hsource⟩, himport⟩
    obtain ⟨sources, hsources, -, hmem⟩ := sourcesBelow_eq hproper (hreadable root hroot) f
    obtain rfl := Except.ok.inj (hsources.symm.trans hfound)
    obtain ⟨path, hpath, bytes, hbytes, rfl⟩ := (hmem source).mp hsource
    exact ⟨root, hroot, path, hpath, bytes, hbytes, himport⟩
  · rintro ⟨root, hroot, path, hpath, bytes, hbytes, himport⟩
    obtain ⟨sources, hsources, -, hmem⟩ := sourcesBelow_eq hproper (hreadable root hroot) f
    have hsource := (hmem (Java.scan path bytes)).mpr ⟨path, hpath, bytes, hbytes, rfl⟩
    exact ⟨Java.scan path bytes, ⟨root, hroot, sources, hsources, hsource⟩, himport⟩

theorem Built.filesScanned_eq {allowCycles : Bool} (hbuilt : Built allowCycles sources r) :
    r.filesScanned = sources.length := by
  obtain ⟨_, _, _, _, hadds, _, rfl⟩ := hbuilt
  exact Result.filesScanned_of_addEdges hadds

/-- A lenient build holds the imports of its files, whatever the order in which their edges came. -/
theorem Built.lenient (hbuilt : Built true sources r)
    (hnamed : ∀ source ∈ sources, ∀ name ∈ source.references, name ≠ "") :
    r.rejected = [] ∧ r.filesScanned = sources.length ∧
      ∀ a b, r.graph.dependencies.Edge a b ↔ Imports sources a b := by
  obtain ⟨order, hedges, hcovers⟩ := hbuilt.covers hnamed
  have hnone : r.rejected = [] := by
    by_contra hsome
    cases hcovers.guarded hsome
  refine ⟨hnone, hbuilt.filesScanned_eq, fun a b => ?_⟩
  rw [← hedges]
  exact ⟨hcovers.stored a b, hcovers.complete hnone a b⟩

theorem Built.edge_iff (hbuilt : Built true (scanned d f roots) r) (hproper : d.top.Proper)
    (hreadable : ∀ root ∈ roots, d.Readable (Path.ofString root)) (a b : String) :
    r.graph.dependencies.Edge a b ↔ ImportBelow d f roots a b := by
  obtain ⟨-, -, hedge⟩ := hbuilt.lenient fun _ => ne_empty_of_mem_scanned
  exact (hedge a b).trans (imports_scanned_iff hproper hreadable)

theorem importBelow_congr (hsame : ∀ root, root ∈ others ↔ root ∈ roots) :
    ImportBelow d f others a b ↔ ImportBelow d f roots a b := by
  simp only [ImportBelow, hsame]

theorem importBelow_append : ImportBelow d f (roots ++ others) a b ↔
    ImportBelow d f roots a b ∨ ImportBelow d f others a b := by
  simp only [ImportBelow, List.mem_append, or_and_right, exists_or]

/-- A lenient build over readable roots succeeds if it has workers for them. It refuses nothing,
    counts every file that the search finds, once for each root, and holds just the imports of these
    files, in whatever order the threads bring them. So its edges depend on the set of its roots
    alone, and those of two lists of roots are put together when the lists are. -/
theorem run_lenient_exact (hproper : d.top.Proper)
    (hreadable : ∀ root ∈ roots, d.Readable (Path.ofString root)) :
    (∀ workers, Staffed workers roots →
      ∃ r, run d workers true f roots = .ok r ∧ Built true (scanned d f roots) r) ∧
    (∀ r, Built true (scanned d f roots) r →
      r.rejected = [] ∧
      r.filesScanned = (roots.map fun root => (filesBelow d f root).length).sum ∧
      ∀ a b, r.graph.dependencies.Edge a b ↔ ImportBelow d f roots a b) ∧
    (∀ others r s, (∀ root, root ∈ others ↔ root ∈ roots) →
      Built true (scanned d f roots) r → Built true (scanned d f others) s →
      ∀ a b, s.graph.dependencies.Edge a b ↔ r.graph.dependencies.Edge a b) ∧
    ∀ others r s both, (∀ root ∈ others, d.Readable (Path.ofString root)) →
      Built true (scanned d f roots) r → Built true (scanned d f others) s →
      Built true (scanned d f (roots ++ others)) both →
      ∀ a b, both.graph.dependencies.Edge a b ↔
        r.graph.dependencies.Edge a b ∨ s.graph.dependencies.Edge a b := by
  refine ⟨?_, ?_, ?_, ?_⟩
  · intro workers hworkers
    rw [run_of_staffed hworkers, if_pos (failures_eq_nil hproper hreadable)]
    exact exists_built d true f roots
  · intro r hbuilt
    obtain ⟨hrejected, hscanned, -⟩ := hbuilt.lenient fun _ => ne_empty_of_mem_scanned
    rw [length_scanned hproper hreadable] at hscanned
    exact ⟨hrejected, hscanned, hbuilt.edge_iff hproper hreadable⟩
  · intro others r s hsame hbuilt hother a b
    have hreadableToo : ∀ root ∈ others, d.Readable (Path.ofString root) :=
      fun root hroot => hreadable root ((hsame root).mp hroot)
    rw [hbuilt.edge_iff hproper hreadable, hother.edge_iff hproper hreadableToo]
    exact importBelow_congr hsame
  · intro others r s both hreadableToo hbuilt hother hboth a b
    have hall : ∀ root ∈ roots ++ others, d.Readable (Path.ofString root) :=
      List.forall_mem_append.mpr ⟨hreadable, hreadableToo⟩
    rw [hbuilt.edge_iff hproper hreadable, hother.edge_iff hproper hreadableToo,
      hboth.edge_iff hproper hall]
    exact importBelow_append

/-- Two roots, of which one has a link to the other. -/
def linkedRoots : Disk where
  top := .dir [
    ("lib", .dir [
      ("B.java", .file ("package p;\nimport p.A;\nimport p.B;".toList.map (·.toNat.toUInt8)))]),
    ("src", .dir [
      ("A.java", .file ("package p;\nimport p.B;".toList.map (·.toNat.toUInt8))),
      ("more", .link "../lib")])]

theorem proper_linkedRoots : linkedRoots.top.Proper := by
  decide

theorem shortTargets_linkedRoots : linkedRoots.top.ShortTargets := by
  have hlink : ShortNames (Disk.targetNames "../lib") := by decide
  refine .dir ?_
  simp only [List.forall_mem_cons]
  refine ⟨.dir ?_, .dir ?_, by simp⟩
  · simp [Node.ShortTargets.file]
  · simp [Node.ShortTargets.file, Node.ShortTargets.link hlink]

/-- Each root counts its own files and those behind the link, and a file's import of itself is no
    edge. -/
theorem run_lenient_exact_linkedRoots :
    (∀ root ∈ ["src", "lib", "src"], linkedRoots.Readable (Path.ofString root)) ∧
    ∃ r, run linkedRoots (some 0) true {} ["src", "lib", "src"] = .ok r ∧
      r.rejected = [] ∧ r.filesScanned = 5 ∧
      r.graph.dependencies.Edge "p.A" "p.B" ∧ ¬ r.graph.dependencies.Edge "p.B" "p.B" := by
  have hreadable : ∀ root ∈ ["src", "lib", "src"], linkedRoots.Readable (Path.ofString root) := by
    have hsrc : linkedRoots.Readable (Path.ofString "src") :=
      Disk.readable_of_shortTargets proper_linkedRoots shortTargets_linkedRoots rfl
    have hlib : linkedRoots.Readable (Path.ofString "lib") :=
      Disk.readable_of_shortTargets proper_linkedRoots shortTargets_linkedRoots rfl
    simp [hsrc, hlib]
  obtain ⟨hruns, hexact, -, -⟩ := run_lenient_exact (f := {}) proper_linkedRoots hreadable
  obtain ⟨r, hrun, hbuilt⟩ := hruns (some 0) (.inr (by simp))
  obtain ⟨hrejected, hscanned, hedge⟩ := hexact r hbuilt
  have hsrc : filesBelow linkedRoots {} "src" =
      [Path.absolute ["src", "A.java"], Path.absolute ["src", "more", "B.java"]] := by
    decide +kernel
  have hlib : filesBelow linkedRoots {} "lib" = [Path.absolute ["lib", "B.java"]] := by
    decide +kernel
  refine ⟨hreadable, r, hrun, hrejected, by simpa [hsrc, hlib] using hscanned, ?_, ?_⟩
  · rw [hedge]
    have hmem : Path.absolute ["src", "A.java"] ∈ filesBelow linkedRoots {} "src" := by simp [hsrc]
    exact ⟨"src", .head _, _, hmem, _, rfl, rfl, by decide, by decide +kernel, by decide⟩
  · rw [hedge]
    rintro ⟨_, _, _, _, _, _, _, _, _, hother⟩
    exact hother rfl

end Build

end ImportCycles
