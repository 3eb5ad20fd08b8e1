import ImportCycles.Proofs.Audit.Complete
import ImportCycles.Proofs.Build.Sources
import ImportCycles.Proofs.Graph.Guard

open Relation (TransGen ReflTransGen)

namespace ImportCycles

namespace Build

/-- The import graph of the scanned files: from the name of a file to every other name that the file
    imports. -/
def Imports (sources : List Java.Source) (a b : String) : Prop :=
  ∃ source ∈ sources, source.name = a ∧ a ≠ "" ∧ b ∈ source.references ∧ b ≠ a

/-- The edges that a file brings. -/
def edgesOf (source : Java.Source) : List (String × String) :=
  if source.name.isEmpty then []
  else (source.references.filter (· != source.name)).map (source.name, ·)

def Result.addEdges (r : Result) (edges : List (String × String)) : Except Stop Result :=
  edges.foldlM (fun r edge => r.addReference edge.1 edge.2) r

/-- What a build starts from, with the number of files it is going to read. -/
def start (allowCycles : Bool) (sources : List Java.Source) : Result :=
  { graph := Graph.empty allowCycles, filesScanned := sources.length }

/-- A build whose roots are scanned at the same time. The edges of the files may come in any order,
    and the refusals are collected root by root. -/
def Built (allowCycles : Bool) (sources : List Java.Source) (r : Result) : Prop :=
  ∃ order built rejected, order.Perm (sources.flatMap edgesOf) ∧
    (start allowCycles sources).addEdges order = .ok built ∧
    rejected.Perm built.rejected ∧ r = { built with rejected }

/-- Whether there are workers for some roots. -/
def Staffed (workers : Option Int) (roots : List String) : Prop :=
  roots = [] ∨ ∀ count, workers = some count → 0 ≤ count

/-- Whether a build and the audit after it tell a cycle. -/
def Result.tellsCycle (r : Result) (audited : Graph) : Bool :=
  !audited.allClear || !r.rejected.isEmpty

variable {allowCycles : Bool} {r : Result} {edges : List (String × String)} {a b : String}
  {sources : List Java.Source} {roots : List String}

theorem mem_flatMap_edgesOf : (a, b) ∈ sources.flatMap edgesOf ↔ Imports sources a b := by
  simp only [List.mem_flatMap, Imports]
  refine exists_congr fun source => and_congr_right fun _ => ?_
  by_cases hname : source.name = ""
  · rw [edgesOf, if_pos (String.isEmpty_iff.mpr hname)]
    refine iff_of_false List.not_mem_nil ?_
    rintro ⟨rfl, hne, _⟩
    exact hne hname
  · simp only [edgesOf, String.isEmpty_iff, if_neg hname, List.mem_map, List.mem_filter,
      bne_iff_ne, Prod.mk.injEq]
    constructor
    · rintro ⟨_, ⟨hmem, hne⟩, rfl, rfl⟩
      exact ⟨rfl, hname, hmem, hne⟩
    · rintro ⟨rfl, _, hmem, hne⟩
      exact ⟨b, ⟨hmem, hne⟩, rfl, rfl⟩

/-- Some edge leads to the unit. -/
def Referred (edges : List (String × String)) (unit : String) : Prop :=
  ∃ depender, (depender, unit) ∈ edges

theorem Referred.append_right {unit : String} (hreferred : Referred edges unit)
    (more : List (String × String)) : Referred (edges ++ more) unit :=
  hreferred.imp fun _ => List.mem_append_left more

/-- What is true of a build after the edges so far: it stores none but these; it stores all of them
    if it refused none; if it refused some, it guards against cycles and they close one. Others
    refer to the start of each edge that it does not store, and to each unit on a cycle that it
    tells. -/
structure Covers (allowCycles : Bool) (edges : List (String × String)) (r : Result) : Prop where
  reachable : Graph.Reachable allowCycles r.graph
  stored : ∀ a b, r.graph.dependencies.Edge a b → (a, b) ∈ edges
  complete : r.rejected = [] → ∀ a b, (a, b) ∈ edges → r.graph.dependencies.Edge a b
  guarded : r.rejected ≠ [] → allowCycles = false
  cyclic : r.rejected ≠ [] → ¬ Acyclic fun a b => (a, b) ∈ edges
  kept : ∀ a b, (a, b) ∈ edges → r.graph.dependencies.Edge a b ∨ Referred edges a
  told : ∀ trace ∈ r.rejected, ∃ cycle, Route.join cycle = trace ∧
    ∀ unit ∈ cycle, Referred edges unit

theorem covers_empty (allowCycles : Bool) (filesScanned : Nat) :
    Covers allowCycles [] { graph := Graph.empty allowCycles, filesScanned } where
  reachable := Graph.reachable_empty allowCycles
  stored a b hedge := absurd hedge (Table.not_edge_nil a b)
  complete _ _ _ hmem := absurd hmem List.not_mem_nil
  guarded hne := absurd rfl hne
  cyclic hne := absurd rfl hne
  kept _ _ hmem := absurd hmem List.not_mem_nil
  told _ hmem := absurd hmem List.not_mem_nil

/-- What a build told before an edge it can tell after it. -/
theorem Covers.told_append (hcovers : Covers allowCycles edges r) (more : List (String × String)) :
    ∀ trace ∈ r.rejected, ∃ cycle, Route.join cycle = trace ∧
      ∀ unit ∈ cycle, Referred (edges ++ more) unit := by
  intro trace htrace
  obtain ⟨cycle, hjoin, hunits⟩ := hcovers.told trace htrace
  exact ⟨cycle, hjoin, fun unit hunit => (hunits unit hunit).append_right more⟩

theorem Covers.accept (hcovers : Covers allowCycles edges r)
    (hreach : Graph.Reachable allowCycles (r.graph.connect a b)) :
    Covers allowCycles (edges ++ [(a, b)]) { r with graph := r.graph.connect a b } := by
  have hedge := Graph.edge_connect_iff r.graph a b
  have hmem : ∀ x y, (x, y) ∈ edges ++ [(a, b)] ↔ (x, y) ∈ edges ∨ (x = a ∧ y = b) := by simp
  refine ⟨hreach, fun x y h => ?_, fun hnone x y h => ?_, hcovers.guarded,
    fun hsome hacyclic => ?_, fun x y h => ?_, hcovers.told_append _⟩
  · exact (hmem x y).mpr (((hedge x y).mp h).imp_left (hcovers.stored x y))
  · exact (hedge x y).mpr (((hmem x y).mp h).imp_left (hcovers.complete hnone x y))
  · exact hcovers.cyclic hsome (hacyclic.mono fun x y h => (hmem x y).mpr (.inl h))
  · rcases (hmem x y).mp h with hold | hnew
    · exact (hcovers.kept x y hold).imp (fun h => (hedge x y).mpr (.inl h)) (·.append_right _)
    · exact .inl ((hedge x y).mpr (.inr hnew))

/-- The way back leads along stored edges, and the refused edge closes it. -/
theorem Covers.refuse {cycle : List String} (hcovers : Covers false edges r)
    (hback : ReflTransGen r.graph.dependencies.Edge b a)
    (hcycle : SimpleCycle (r.graph.connect a b).dependencies cycle) :
    Covers false (edges ++ [(a, b)]) { r with rejected := r.rejected ++ [Route.join cycle] } := by
  have hmem : ∀ x y, (x, y) ∈ edges ++ [(a, b)] ↔ (x, y) ∈ edges ∨ (x = a ∧ y = b) := by simp
  have hstored : ∀ x y, r.graph.dependencies.Edge x y → (x, y) ∈ edges ++ [(a, b)] :=
    fun x y h => (hmem x y).mpr (.inl (hcovers.stored x y h))
  have hround : TransGen (fun x y => (x, y) ∈ edges ++ [(a, b)]) a a :=
    .head' ((hmem a b).mpr (.inr ⟨rfl, rfl⟩)) (ReflTransGen.mono hstored _ _ hback)
  refine ⟨hcovers.reachable, hstored, by simp, fun _ => rfl, fun _ hacyclic => hacyclic a hround,
    fun x y h => ?_, ?_⟩
  · rcases (hmem x y).mp h with hold | ⟨rfl, rfl⟩
    · exact (hcovers.kept x y hold).imp_right (·.append_right _)
    · obtain ⟨before, -, hbefore⟩ := TransGen.tail'_iff.mp hround
      exact .inr ⟨before, hbefore⟩
  · refine List.forall_mem_append.mpr
      ⟨hcovers.told_append _, List.forall_mem_singleton.mpr ⟨cycle, rfl, fun unit hunit => ?_⟩⟩
    obtain ⟨before, hbefore⟩ := hcycle.exists_edge hunit
    refine ⟨before, (hmem before unit).mpr ?_⟩
    exact ((Graph.edge_connect_iff r.graph a b before unit).mp hbefore).imp_left
      (hcovers.stored before unit)

/-- An edge between names is stored, or refused for the cycle that it closes. -/
theorem Covers.addReference (hcovers : Covers allowCycles edges r) (ha : a ≠ "") (hb : b ≠ "") :
    ∃ next, r.addReference a b = .ok next ∧ Covers allowCycles (edges ++ [(a, b)]) next := by
  have hreach := hcovers.reachable
  have hreached : Graph.Reachable allowCycles (r.graph.add a b).2 := hreach.add a b
  have hadded := Graph.added_add r.graph a b
  unfold Result.addReference
  rcases hadd : r.graph.add a b with ⟨refusal, after⟩
  rw [hadd] at hadded hreached
  rcases hadded.connect_or_same hreach.wellFormed.mirrored with ⟨rfl, rfl⟩ | ⟨hrefused, rfl⟩
  · exact ⟨_, rfl, hcovers.accept hreached⟩
  · obtain ⟨hguard, cycle, rfl⟩ := hadded.closesCycle_of_refused ha hb hrefused
    obtain rfl : allowCycles = false := hreach.allowCycles_eq.symm.trans hguard
    have hback := ((hadded.closesCycle_iff hguard hreach.acyclic).mp ⟨cycle, rfl⟩).2.2
    exact ⟨_, rfl, hcovers.refuse hback hadded.simpleCycle⟩

theorem Covers.addEdges (hcovers : Covers allowCycles edges r) {more : List (String × String)}
    (hnamed : ∀ edge ∈ more, edge.1 ≠ "" ∧ edge.2 ≠ "") :
    ∃ built, r.addEdges more = .ok built ∧ Covers allowCycles (edges ++ more) built := by
  induction more generalizing edges r with
  | nil => exact ⟨r, rfl, by simpa using hcovers⟩
  | cons edge rest ih =>
    obtain ⟨⟨ha, hb⟩, hrest⟩ := List.forall_mem_cons.mp hnamed
    obtain ⟨next, hadd, hnext⟩ := hcovers.addReference ha hb
    obtain ⟨built, hbuilt, hall⟩ := ih hnext hrest
    refine ⟨built, ?_, by simpa using hall⟩
    rw [Result.addEdges, List.foldlM_cons, hadd]
    exact hbuilt

/-- A build that refused some edges tells a cycle at once. One that refused none holds all edges,
    and leaves the verdict to the audit. -/
theorem Covers.tellsCycle_iff (hcovers : Covers allowCycles edges r) {after : Graph}
    (haudit : r.graph.Audited after) :
    r.tellsCycle after = true ↔ ¬ Acyclic fun a b => (a, b) ∈ edges := by
  obtain ⟨hreach, hstored, hcomplete, -, hcyclic, -, -⟩ := hcovers
  by_cases hrejected : r.rejected = []
  · have hedge : r.graph.dependencies.Edge = fun a b => (a, b) ∈ edges := by
      funext a b
      exact propext ⟨hstored a b, hcomplete hrejected a b⟩
    have hclear := hreach.wellFormed.allClear_iff haudit
    rw [hedge] at hclear
    simp [Result.tellsCycle, hrejected, ← hclear]
  · exact iff_of_true (by simp [Result.tellsCycle, hrejected]) (hcyclic hrejected)

/-- The edges of files are named at both ends, in whatever order they come. -/
theorem ends_named {order : List (String × String)} (horder : order.Perm (sources.flatMap edgesOf))
    (hnamed : ∀ source ∈ sources, ∀ name ∈ source.references, name ≠ "") :
    ∀ edge ∈ order, edge.1 ≠ "" ∧ edge.2 ≠ "" := by
  rintro ⟨a, b⟩ hmem
  obtain ⟨source, hsource, _, hne, hb, _⟩ := mem_flatMap_edgesOf.mp (horder.mem_iff.mp hmem)
  exact ⟨hne, hnamed source hsource b hb⟩

/-- In whatever order the edges came, a build has taken in the imports of its files. -/
theorem Built.covers (hbuilt : Built allowCycles sources r)
    (hnamed : ∀ source ∈ sources, ∀ name ∈ source.references, name ≠ "") :
    ∃ order, (∀ a b, (a, b) ∈ order ↔ Imports sources a b) ∧ Covers allowCycles order r := by
  obtain ⟨order, _, rejected, horder, hadds, hrejected, rfl⟩ := hbuilt
  obtain ⟨built, hbuilt, hcovers⟩ :=
    (covers_empty allowCycles sources.length).addEdges (ends_named horder hnamed)
  obtain rfl := Except.ok.inj (hbuilt.symm.trans hadds)
  obtain ⟨hreach, hstored, hcomplete, hguarded, hcyclic, hkept, htold⟩ := hcovers
  have hnone : rejected = [] ↔ built.rejected = [] := by
    rw [← List.isEmpty_iff, hrejected.isEmpty_eq, List.isEmpty_iff]
  exact ⟨order, fun a b => horder.mem_iff.trans mem_flatMap_edgesOf, hreach, hstored,
    fun h => hcomplete (hnone.mp h), fun h => hguarded (mt hnone.mpr h),
    fun h => hcyclic (mt hnone.mpr h), hkept,
    fun trace htrace => htold trace (hrejected.mem_iff.mp htrace)⟩

/-- A build and its audit tell a cycle exactly if the scanned files import one another in a circle.
    Neither the guard nor the order of the edges nor that of the audit's steps matters. -/
theorem Built.tellsCycle_iff (hbuilt : Built allowCycles sources r)
    (hnamed : ∀ source ∈ sources, ∀ name ∈ source.references, name ≠ "") {after : Graph}
    (haudit : r.graph.Audited after) :
    r.tellsCycle after = true ↔ ¬ Acyclic (Imports sources) := by
  obtain ⟨order, hedges, hcovers⟩ := hbuilt.covers hnamed
  have hverdict := hcovers.tellsCycle_iff haudit
  simpa only [hedges] using hverdict

theorem Result.addReference_filesScanned (r : Result) (n : Nat) (a b : String) :
    { r with filesScanned := n }.addReference a b =
      (r.addReference a b).map ({ · with filesScanned := n }) := by
  unfold Result.addReference
  dsimp only
  split <;> rfl

theorem Result.addEdges_cons (r : Result) (edge : String × String)
    (edges : List (String × String)) :
    r.addEdges (edge :: edges) = (r.addReference edge.1 edge.2).bind (·.addEdges edges) :=
  List.foldlM_cons

theorem Result.addEdges_filesScanned (r : Result) (n : Nat) (edges : List (String × String)) :
    { r with filesScanned := n }.addEdges edges =
      (r.addEdges edges).map ({ · with filesScanned := n }) := by
  induction edges generalizing r with
  | nil => rfl
  | cons edge rest ih =>
    rw [Result.addEdges_cons, Result.addEdges_cons, Result.addReference_filesScanned]
    cases r.addReference edge.1 edge.2 with
    | error stop => rfl
    | ok next => exact ih next

theorem Result.filesScanned_of_addEdges {built : Result} (hadds : r.addEdges edges = .ok built) :
    built.filesScanned = r.filesScanned := by
  have hsame := r.addEdges_filesScanned r.filesScanned edges
  rw [hadds, Except.map, Except.ok.injEq] at hsame
  rw [hsame]

theorem Result.addEdges_append (r : Result) (edges more : List (String × String)) :
    r.addEdges (edges ++ more) = (r.addEdges edges).bind (·.addEdges more) :=
  List.foldlM_append

theorem Result.addSource_eq (r : Result) (source : Java.Source) :
    r.addSource source =
      { r with filesScanned := r.filesScanned + 1 }.addEdges (edgesOf source) := by
  unfold Result.addSource edgesOf
  dsimp only
  split
  · rfl
  · rw [Result.addEdges, List.foldlM_map]

theorem Result.foldlM_addSource (r : Result) (sources : List Java.Source) :
    sources.foldlM Result.addSource r =
      { r with filesScanned := r.filesScanned + sources.length }.addEdges
        (sources.flatMap edgesOf) := by
  induction sources generalizing r with
  | nil => rfl
  | cons source rest ih =>
    rw [List.foldlM_cons, Result.addSource_eq, List.flatMap_cons, Result.addEdges_append,
      Result.addEdges_filesScanned, Result.addEdges_filesScanned r (_ + (source :: rest).length)]
    cases r.addEdges (edgesOf source) with
    | error stop => rfl
    | ok next =>
      have hcount : r.filesScanned + (source :: rest).length =
          r.filesScanned + 1 + rest.length := by
        rw [List.length_cons]
        omega
      rw [hcount]
      exact ih _

theorem foldlM_addRoot (d : Disk) (f : SearchFilter) (roots : List String)
    (sofar : List RootFailure × Result) :
    roots.foldlM (addRoot d f) sofar =
      ((scanned d f roots).foldlM Result.addSource sofar.2).map
        (sofar.1 ++ failures d f roots, ·) := by
  induction roots generalizing sofar with
  | nil => simp [failures, scanned, Except.map, pure, Except.pure]
  | cons root rest ih =>
    cases hbelow : sourcesBelow d f root with
    | error failure =>
      have hstep : addRoot d f sofar root = .ok (sofar.1 ++ [failure], sofar.2) := by
        rw [addRoot, hbelow]
      rw [scanned_cons_of_error hbelow, failures_cons_of_error hbelow, List.append_cons,
        List.foldlM_cons, hstep]
      exact ih _
    | ok sources =>
      have hstep : addRoot d f sofar root =
          (sources.foldlM Result.addSource sofar.2).map (sofar.1, ·) := by
        rw [addRoot, hbelow]
      rw [scanned_cons_of_ok hbelow, failures_cons_of_ok hbelow, List.foldlM_append,
        List.foldlM_cons, hstep]
      cases sources.foldlM Result.addSource sofar.2 with
      | error stop => rfl
      | ok next => exact ih (sofar.1, next)

/-- The edges of scanned files can be added. -/
theorem exists_built (d : Disk) (allowCycles : Bool) (f : SearchFilter) (roots : List String) :
    ∃ r, (start allowCycles (scanned d f roots)).addEdges ((scanned d f roots).flatMap edgesOf) =
        .ok r ∧ Built allowCycles (scanned d f roots) r := by
  have hnamed := ends_named (.refl _) fun _ => @ne_empty_of_mem_scanned d f roots _
  obtain ⟨r, hadds, -⟩ := (covers_empty allowCycles (scanned d f roots).length).addEdges hnamed
  exact ⟨r, hadds, _, r, _, .refl _, hadds, .refl _, rfl⟩

theorem not_staffed_iff {workers : Option Int} :
    (!roots.isEmpty && workers.any (· < 0)) = true ↔ ¬ Staffed workers roots := by
  simp [Staffed, Option.any_eq_true]

/-- A build without workers for its roots does not begin. -/
theorem run_of_not_staffed {workers : Option Int} (hworkers : ¬ Staffed workers roots)
    (d : Disk) (allowCycles : Bool) (f : SearchFilter) :
    run d workers allowCycles f roots = .error .noWorkers := by
  rw [run, if_pos (not_staffed_iff.mpr hworkers)]

/-- With workers a build fails with its failing roots, whether it guards against cycles or not, and
    otherwise ends with what its files make together. -/
theorem run_of_staffed {workers : Option Int} (hworkers : Staffed workers roots)
    (d : Disk) (allowCycles : Bool) (f : SearchFilter) :
    run d workers allowCycles f roots =
      if failures d f roots = [] then
        (start allowCycles (scanned d f roots)).addEdges ((scanned d f roots).flatMap edgesOf)
      else .error (.failed (failures d f roots)) := by
  obtain ⟨r, hadds, -⟩ := exists_built d allowCycles f roots
  have hsources : (scanned d f roots).foldlM Result.addSource
      { graph := Graph.empty allowCycles } = .ok r := by
    rw [Result.foldlM_addSource, ← hadds, start, Nat.zero_add]
  rw [run, if_neg (mt not_staffed_iff.mp (not_not_intro hworkers)), foldlM_addRoot, hsources, hadds]
  cases hfailures : failures d f roots with
  | nil => simp [Except.map]
  | cons failure rest => simp [Except.map]

/-- Only failing roots end a build that has workers. -/
theorem run_eq_error_iff {workers : Option Int} (hworkers : Staffed workers roots) {d : Disk}
    {f : SearchFilter} {stop : Stop} : run d workers allowCycles f roots = .error stop ↔
      failures d f roots ≠ [] ∧ stop = .failed (failures d f roots) := by
  rw [run_of_staffed hworkers]
  split
  · rename_i hnone
    obtain ⟨r, hadds, -⟩ := exists_built d allowCycles f roots
    simp [hnone, hadds]
  · rename_i hsome
    simp [hsome, eq_comm]

end Build

end ImportCycles
