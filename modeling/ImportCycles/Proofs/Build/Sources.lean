import ImportCycles.Build
import ImportCycles.Proofs.Disk.Selection
import ImportCycles.Proofs.Java.Declaration

namespace ImportCycles

section Except

variable {α β ε : Type} {f : α → Except ε β} {xs : List α} {ys : List β} {e : ε}

theorem mapM_eq_ok_iff : xs.mapM f = .ok ys ↔ xs.map f = ys.map .ok := by
  induction xs generalizing ys with
  | nil => simp [pure, Except.pure, eq_comm]
  | cons x rest ih =>
    rw [List.mapM_cons]
    cases hx : f x with
    | error e => cases ys <;> simp [hx, bind, Except.bind]
    | ok y =>
      cases hrest : rest.mapM f with
      | error e => cases ys <;> simp [← ih, hx, hrest, bind, Except.bind]
      | ok others => cases ys <;> simp [← ih, hx, hrest, bind, Except.bind, pure, Except.pure]

theorem mem_of_mapM_eq_ok {y : β} (hok : xs.mapM f = .ok ys) : y ∈ ys ↔ ∃ x ∈ xs, f x = .ok y := by
  rw [← List.mem_map, mapM_eq_ok_iff.mp hok]
  simp

theorem exists_of_mapM_eq_error (herror : xs.mapM f = .error e) : ∃ x ∈ xs, f x = .error e := by
  induction xs with
  | nil => cases herror
  | cons x rest ih =>
    rw [List.mapM_cons] at herror
    cases hx : f x with
    | error other =>
      rw [hx] at herror
      cases herror
      exact ⟨x, List.mem_cons_self, hx⟩
    | ok y =>
      cases hrest : rest.mapM f with
      | error other =>
        rw [hx, hrest] at herror
        cases herror
        obtain ⟨found, hmem, hfound⟩ := ih hrest
        exact ⟨found, List.mem_cons_of_mem _ hmem, hfound⟩
      | ok others =>
        rw [hx, hrest] at herror
        cases herror

end Except

namespace Build

variable {d : Disk} {f : SearchFilter} {root : String} {roots : List String} {paths : List Path}
  {sources : List Java.Source} {path : Path} {source : Java.Source} {failure : RootFailure}

/-- The files scanned below some roots, root by root. -/
def scanned (d : Disk) (f : SearchFilter) (roots : List String) : List Java.Source :=
  roots.flatMap fun root => (sourcesBelow d f root).toOption.getD []

/-- The roots that cannot be searched, in order, with reasons. -/
def failures (d : Disk) (f : SearchFilter) (roots : List String) : List RootFailure :=
  roots.flatMap fun root =>
    match sourcesBelow d f root with
    | .ok _ => []
    | .error failure => [failure]

theorem scanned_cons_of_ok (hbelow : sourcesBelow d f root = .ok sources) :
    scanned d f (root :: roots) = sources ++ scanned d f roots := by
  simp [scanned, hbelow, Except.toOption]

theorem scanned_cons_of_error (hbelow : sourcesBelow d f root = .error failure) :
    scanned d f (root :: roots) = scanned d f roots := by
  simp [scanned, hbelow, Except.toOption]

theorem failures_cons_of_ok (hbelow : sourcesBelow d f root = .ok sources) :
    failures d f (root :: roots) = failures d f roots := by
  simp [failures, hbelow]

theorem failures_cons_of_error (hbelow : sourcesBelow d f root = .error failure) :
    failures d f (root :: roots) = failure :: failures d f roots := by
  simp [failures, hbelow]

theorem sourceIn_eq_ok_iff : sourceIn d root path = .ok source ↔
    ∃ bytes, d.read path = .ok bytes ∧ Java.scan path bytes = source := by
  rw [sourceIn]
  cases d.read path <;> simp

theorem sourcesBelow_of_files (hfiles : d.files f (Path.ofString root) = .ok paths) :
    sourcesBelow d f root = paths.mapM (sourceIn d root) := by
  rw [sourcesBelow, hfiles]

/-- A file that a search finds can be read, so a root that is searched to its end does not fail. -/
theorem exists_sourcesBelow (hproper : d.top.Proper)
    (hfiles : d.files f (Path.ofString root) = .ok paths) :
    ∃ sources, sourcesBelow d f root = .ok sources := by
  rw [sourcesBelow_of_files hfiles]
  cases hsources : paths.mapM (sourceIn d root) with
  | ok sources => exact ⟨sources, rfl⟩
  | error failure =>
    obtain ⟨path, hpath, hfails⟩ := exists_of_mapM_eq_error hsources
    obtain ⟨bytes, hread⟩ := Disk.read_of_mem_files hproper hfiles hpath
    rw [sourceIn_eq_ok_iff.mpr ⟨bytes, hread, rfl⟩] at hfails
    cases hfails

theorem mem_scanned_iff : source ∈ scanned d f roots ↔
    ∃ root ∈ roots, ∃ sources, sourcesBelow d f root = .ok sources ∧ source ∈ sources := by
  rw [scanned, List.mem_flatMap]
  refine exists_congr fun root => and_congr_right fun _ => ?_
  cases sourcesBelow d f root <;> simp [Except.toOption]

/-- No file refers to what has no name. -/
theorem ne_empty_of_mem_scanned (hsource : source ∈ scanned d f roots) :
    ∀ name ∈ source.references, name ≠ "" := by
  obtain ⟨root, -, sources, hbelow, hmem⟩ := mem_scanned_iff.mp hsource
  cases hfiles : d.files f (Path.ofString root) with
  | error fault =>
    rw [sourcesBelow, hfiles] at hbelow
    cases hbelow
  | ok paths =>
    rw [sourcesBelow_of_files hfiles] at hbelow
    obtain ⟨path, -, hscan⟩ := (mem_of_mapM_eq_ok hbelow).mp hmem
    obtain ⟨bytes, -, rfl⟩ := sourceIn_eq_ok_iff.mp hscan
    exact fun name => Java.ne_empty_of_mem_references

end Build

end ImportCycles
