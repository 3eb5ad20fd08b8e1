import ImportCycles.Proofs.Build.Verdict
import ImportCycles.Proofs.Intercalate

namespace ImportCycles

namespace Build

variable {d : Disk} {f : SearchFilter} {root : String} {failure : RootFailure}
  {failures : List RootFailure} {roots : List String} {place : List String}

/-- A root fails because there is no such directory, because it is something else, or because of an
    error of the system: it refuses to tell what the root is, or what an entry is that the search
    comes to. With an error of the system a root is told as it was given, else as a path. -/
inductive FailsFor (d : Disk) (f : SearchFilter) (root : String) : RootFailure → Prop where
  | missing {fault : Fault} (hfind : d.find (Path.ofString root) = .error fault)
      (htold : fault ≠ .nameTooLong) :
      FailsFor d f root
        { root := (Path.ofString root).toString, reason := "no such directory" }
  | notDirectory {place : List String} {node : Node}
      (hfind : d.find (Path.ofString root) = .ok (place, node)) (hnode : node.isDir = false) :
      FailsFor d f root
        { root := (Path.ofString root).toString, reason := "not a directory" }
  | refused (hfind : d.find (Path.ofString root) = .error .nameTooLong) :
      FailsFor d f root { root, reason := Fault.nameTooLong.message (Path.ofString root) }
  | refusedBelow {place first : List String} {entries : List (String × Node)}
      (hfind : d.find (Path.ofString root) = .ok (place, .dir entries))
      (hrefused : d.Refused f place first)
      (hfirst : ∀ others, d.Refused f place others → ¬ others < first) :
      FailsFor d f root { root, reason := Fault.nameTooLong.message (Path.absolute first) }

/-- The failures of a list of roots: one for each root that fails, in the order of the roots. -/
inductive Collects (d : Disk) (f : SearchFilter) : List String → List RootFailure → Prop where
  | nil : Collects d f [] []
  | fails {root : String} {roots : List String} {failure : RootFailure}
      {failures : List RootFailure} (hfails : FailsFor d f root failure)
      (hrest : Collects d f roots failures) : Collects d f (root :: roots) (failure :: failures)
  | passes {root : String} {roots : List String} {failures : List RootFailure}
      (hpasses : ∀ failure, ¬ FailsFor d f root failure) (hrest : Collects d f roots failures) :
      Collects d f (root :: roots) failures

theorem FailsFor.sourcesBelow_eq (hfails : FailsFor d f root failure) (hproper : d.top.Proper) :
    sourcesBelow d f root = .error failure := by
  cases hfails with
  | @missing fault hfind htold =>
    have hfiles : d.files f (Path.ofString root) = .error .noSuchDirectory := by
      rw [Disk.files, hfind]
      cases fault with
      | nameTooLong => exact absurd rfl htold
      | missing | notDirectory | isDirectory | tooManyLinks | embeddedNul => rfl
    rw [sourcesBelow, hfiles]
    rfl
  | @notDirectory place node hfind hnode =>
    have hfiles : d.files f (Path.ofString root) = .error .notADirectory := by
      rw [Disk.files, hfind]
      cases node with
      | dir entries => cases hnode
      | file | link => rfl
    rw [sourcesBelow, hfiles]
    rfl
  | refused hfind =>
    have hfiles : d.files f (Path.ofString root) = .error (.nameTooLong (Path.ofString root)) := by
      rw [Disk.files, hfind]
    rw [sourcesBelow, hfiles]
    rfl
  | @refusedBelow place first entries hfind hrefused hfirst =>
    obtain ⟨least, hleast, hbefore, hfiles⟩ := Disk.files_of_refused hproper hfind hrefused
    -- two refused entries with none before them are the same
    have hsame : least = first := List.le_antisymm
      (List.not_lt.mp (hbefore first hrefused)) (List.not_lt.mp (hfirst least hleast))
    rw [sourcesBelow, hfiles, hsame]
    rfl

/-- A root either fails or is searched to its end. -/
theorem failsFor_or_found (hproper : d.top.Proper) (f : SearchFilter) (root : String) :
    (∃ failure, FailsFor d f root failure) ∨
      ∃ paths, d.files f (Path.ofString root) = .ok paths := by
  cases hfind : d.find (Path.ofString root) with
  | error fault =>
    by_cases htold : fault = .nameTooLong
    · exact .inl ⟨_, .refused (htold ▸ hfind)⟩
    · exact .inl ⟨_, .missing hfind htold⟩
  | ok found =>
    obtain ⟨place, node⟩ := found
    cases node with
    | file bytes => exact .inl ⟨_, .notDirectory hfind rfl⟩
    | link target => exact .inl ⟨_, .notDirectory hfind rfl⟩
    | dir entries =>
      by_cases hany : ∃ names, d.Refused f place names
      · obtain ⟨names, hrefused⟩ := hany
        obtain ⟨first, hfirst, hleast, -⟩ := Disk.files_of_refused hproper hfind hrefused
        exact .inl ⟨_, .refusedBelow hfind hfirst hleast⟩
      · obtain ⟨found, hfiles, -⟩ :=
          Disk.files_of_told hproper hfind fun names hrefused => hany ⟨names, hrefused⟩
        exact .inr ⟨_, hfiles⟩

theorem sourcesBelow_eq_error_iff (hproper : d.top.Proper) :
    sourcesBelow d f root = .error failure ↔ FailsFor d f root failure := by
  refine ⟨fun herror => ?_, fun hfails => hfails.sourcesBelow_eq hproper⟩
  rcases failsFor_or_found hproper f root with ⟨other, hother⟩ | ⟨paths, hfiles⟩
  · have hsame := (hother.sourcesBelow_eq hproper).symm.trans herror
    exact Except.error.inj hsame ▸ hother
  · obtain ⟨sources, hsources⟩ := exists_sourcesBelow hproper hfiles
    cases hsources.symm.trans herror

/-- The failures of a build are those of its roots. -/
theorem collects_iff (hproper : d.top.Proper) :
    Collects d f roots failures ↔ failures = Build.failures d f roots := by
  constructor
  · intro hcollects
    induction hcollects with
    | nil => rfl
    | fails hfails _ ih =>
      rw [failures_cons_of_error ((sourcesBelow_eq_error_iff hproper).mpr hfails), ih]
    | @passes root _ _ hpasses _ ih =>
      cases hbelow : sourcesBelow d f root with
      | ok sources => rw [failures_cons_of_ok hbelow, ih]
      | error failure => exact absurd ((sourcesBelow_eq_error_iff hproper).mp hbelow) (hpasses _)
  · rintro rfl
    induction roots with
    | nil => exact .nil
    | cons root rest ih =>
      cases hbelow : sourcesBelow d f root with
      | error failure =>
        rw [failures_cons_of_error hbelow]
        exact .fails ((sourcesBelow_eq_error_iff hproper).mp hbelow) ih
      | ok sources =>
        rw [failures_cons_of_ok hbelow]
        refine .passes (fun failure hfails => ?_) ih
        cases hbelow.symm.trans (hfails.sourcesBelow_eq hproper)

theorem failures_eq_nil_iff (hproper : d.top.Proper) :
    Build.failures d f roots = [] ↔ ∀ root ∈ roots, ∀ failure, ¬ FailsFor d f root failure := by
  rw [Build.failures, List.flatMap_eq_nil_iff]
  refine forall₂_congr fun root _ => ?_
  simp only [← sourcesBelow_eq_error_iff hproper]
  cases sourcesBelow d f root <;> simp

/-- Each failure is told in the message of them all. -/
theorem message_infix (hmem : failure ∈ failures) :
    failure.message.toList <:+: (failureMessage failures).toList := by
  have hpiece : failure.message.toList <:+:
      ("; ".intercalate (failures.map RootFailure.message)).toList := by
    rw [String.toList_intercalate, List.map_map]
    exact infix_intercalate (List.mem_map_of_mem (f := String.toList ∘ RootFailure.message) hmem)
  rw [failureMessage, String.toList_append]
  exact hpiece.trans (List.suffix_append _ _).isInfix

/-- No file brings an edge that lacks a name. -/
theorem add_ne_emptyName {path : Path} {bytes : List UInt8} {edge : String × String}
    (hedge : edge ∈ edgesOf (Java.scan path bytes)) (g : Graph) :
    (g.add edge.1 edge.2).1 ≠ some .emptyName := by
  have hmem : edge ∈ [Java.scan path bytes].flatMap edgesOf := by simpa using hedge
  obtain ⟨hfirst, hsecond⟩ := ends_named (.refl _)
    (by simpa using fun name => Java.ne_empty_of_mem_references) edge hmem
  exact Graph.add_ne_emptyName g hfirst hsecond

/-- A root whose files import each other, and a file that is no root. -/
def cyclicRoot : Disk where
  top := .dir [
    ("file.txt", .file []),
    ("src", .dir [
      ("A.java", .file ("package p;\nimport p.B;".toList.map (·.toNat.toUInt8))),
      ("B.java", .file ("package p;\nimport p.A;".toList.map (·.toNat.toUInt8)))])]

end Build

end ImportCycles
