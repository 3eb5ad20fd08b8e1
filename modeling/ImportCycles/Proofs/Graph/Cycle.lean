import Mathlib.Data.List.Chain
import Mathlib.Data.List.Nodup
import Mathlib.Logic.Relation
import ImportCycles.Graph.Walk
import ImportCycles.Proofs.Graph.Table

open Relation (TransGen ReflTransGen)

namespace ImportCycles

/-- No unit leads back to itself. -/
def Acyclic (edge : String → String → Prop) : Prop :=
  ∀ unit, ¬ TransGen edge unit unit

/-- A closed route along the edges: it comes back to the unit it starts from. -/
structure Circuit (edges : Table) (units : List String) : Prop where
  closed : ∃ first others, units = first :: (others ++ [first])
  follows : units.IsChain edges.Edge

/-- A circuit that meets no unit twice before it closes. -/
structure SimpleCycle (edges : Table) (units : List String) : Prop extends Circuit edges units where
  distinct : units.dropLast.Nodup

variable {edges : Table}

theorem Acyclic.mono {edge sparser : String → String → Prop} (hacyclic : Acyclic edge)
    (hsub : ∀ a b, sparser a b → edge a b) : Acyclic sparser :=
  fun unit hloop => hacyclic unit (TransGen.mono hsub unit unit hloop)

theorem transGen_of_isChain {r : String → String → Prop} {first last : String}
    {others : List String} (hchain : (first :: (others ++ [last])).IsChain r) :
    TransGen r first last := by
  induction others generalizing first with
  | nil => exact .single (List.isChain_pair.mp hchain)
  | cons next rest ih =>
    rw [List.cons_append, List.isChain_cons_cons] at hchain
    exact .head hchain.1 (ih hchain.2)

/-- A route closes into a circuit by an edge from its last unit to its first. -/
theorem Circuit.of_isChain {first last : String} {others : List String}
    (hchain : (first :: others).IsChain edges.Edge) (hlast : (first :: others).getLast? = some last)
    (hedge : edges.Edge last first) : Circuit edges (first :: (others ++ [first])) where
  closed := ⟨first, others, rfl⟩
  follows := by
    rw [← List.cons_append]
    refine hchain.append (List.isChain_singleton first) ?_
    intro before hbefore next hnext
    rw [hlast] at hbefore
    obtain rfl : last = before := Option.some.inj hbefore
    obtain rfl : first = next := Option.some.inj hnext
    exact hedge

theorem exists_circuit_of_loop {unit : String} (hloop : TransGen edges.Edge unit unit) :
    ∃ units, Circuit edges units ∧ unit ∈ units := by
  obtain ⟨last, hpath, hedge⟩ := TransGen.tail'_iff.mp hloop
  obtain ⟨others, hchain, hlast⟩ := List.exists_isChain_cons_of_relationReflTransGen hpath
  rw [← Option.some.injEq, ← List.getLast?_eq_some_getLast] at hlast
  exact ⟨unit :: (others ++ [unit]), .of_isChain hchain hlast hedge, by simp⟩

theorem Circuit.not_acyclic {units : List String} (hcircuit : Circuit edges units) :
    ¬ Acyclic edges.Edge := by
  obtain ⟨⟨first, others, rfl⟩, hfollows⟩ := hcircuit
  exact fun hacyclic => hacyclic first (transGen_of_isChain hfollows)

/-- A circuit cannot keep clear of units without which the graph has no cycle. -/
theorem Circuit.exists_mem {units : List String} {marked : String → Prop}
    (hcircuit : Circuit edges units)
    (hacyclic : Acyclic fun a b => edges.Edge a b ∧ ¬ marked a ∧ ¬ marked b) :
    ∃ unit ∈ units, marked unit := by
  by_contra hnone
  push Not at hnone
  obtain ⟨⟨first, others, rfl⟩, hfollows⟩ := hcircuit
  have hunmarked : (first :: (others ++ [first])).IsChain fun a b =>
      edges.Edge a b ∧ ¬ marked a ∧ ¬ marked b :=
    hfollows.imp_of_mem_imp fun a b ha hb hedge => ⟨hedge, hnone a ha, hnone b hb⟩
  exact hacyclic first (transGen_of_isChain hunmarked)

/-- Along a closed route every unit leads to every other. -/
theorem reaches_of_isChain {r : String → String → Prop} {first : String} {others : List String}
    (hchain : (first :: (others ++ [first])).IsChain r) {a b : String}
    (ha : a ∈ first :: (others ++ [first])) (hb : b ∈ first :: (others ++ [first])) :
    ReflTransGen r a b := by
  have hpairs : (first :: (others ++ [first])).Pairwise (ReflTransGen r) :=
    (hchain.imp fun _ _ => ReflTransGen.single).pairwise
  have hfrom : ReflTransGen r first b := by
    rcases List.mem_cons.mp hb with rfl | hb
    · exact .refl
    · exact (List.pairwise_cons.mp hpairs).1 b hb
  have hto : ReflTransGen r a first := by
    have hmem : a ∈ first :: others := by simpa [or_comm, or_assoc] using ha
    exact (List.pairwise_append.mp hpairs).2.2 a hmem first (by simp)
  exact hto.trans hfrom

/-- All units of a circuit lie in one strongly connected component. -/
theorem Circuit.reaches {units : List String} (hcircuit : Circuit edges units) {a b : String}
    (ha : a ∈ units) (hb : b ∈ units) : ReflTransGen edges.Edge a b := by
  obtain ⟨⟨first, others, rfl⟩, hfollows⟩ := hcircuit
  exact reaches_of_isChain hfollows ha hb

theorem Circuit.loop {units : List String} (hcircuit : Circuit edges units) {unit : String}
    (hunit : unit ∈ units) : TransGen edges.Edge unit unit := by
  obtain ⟨first, others, hunits⟩ := hcircuit.closed
  have hround : TransGen edges.Edge first first := transGen_of_isChain (hunits ▸ hcircuit.follows)
  have hfirst : first ∈ units := by simp [hunits]
  exact (hround.trans_right (hcircuit.reaches hunit hfirst)).trans_left
    (hcircuit.reaches hfirst hunit)

/-- Every unit of a circuit is the end of an edge. -/
theorem Circuit.exists_edge {units : List String} (hcircuit : Circuit edges units) {unit : String}
    (hunit : unit ∈ units) : ∃ before, edges.Edge before unit := by
  obtain ⟨before, -, hedge⟩ := TransGen.tail'_iff.mp (hcircuit.loop hunit)
  exact ⟨before, hedge⟩

theorem SimpleCycle.mono {denser : Table} (hsub : ∀ a b, edges.Edge a b → denser.Edge a b)
    {units : List String} (hcycle : SimpleCycle edges units) : SimpleCycle denser units :=
  ⟨⟨hcycle.closed, hcycle.follows.imp hsub⟩, hcycle.distinct⟩

/-- A path through the graph with a new edge avoids the edge, or takes it after a way to its first
    end and goes on from its second. -/
theorem transGen_of_add_edge {edge : String → String → Prop} {a b x y : String}
    (hpath : TransGen (fun x y => edge x y ∨ (x = a ∧ y = b)) x y) :
    TransGen edge x y ∨ (ReflTransGen edge x a ∧ ReflTransGen edge b y) := by
  induction hpath with
  | single hstep =>
    rcases hstep with hold | ⟨rfl, rfl⟩
    · exact .inl (.single hold)
    · exact .inr ⟨.refl, .refl⟩
  | tail _ hstep ih =>
    rcases hstep with hold | ⟨rfl, rfl⟩
    · exact ih.imp (·.tail hold) fun ⟨hto, hfrom⟩ => ⟨hto, hfrom.tail hold⟩
    · exact .inr ⟨ih.elim (·.to_reflTransGen) (·.1), .refl⟩

/-- A new edge closes a cycle only if there was a way back. -/
theorem Acyclic.add_edge {edge : String → String → Prop} (hacyclic : Acyclic edge) {a b : String}
    (hback : ¬ ReflTransGen edge b a) : Acyclic fun x y => edge x y ∨ (x = a ∧ y = b) := by
  intro unit hloop
  rcases transGen_of_add_edge hloop with hold | ⟨hto, hfrom⟩
  · exact hacyclic unit hold
  · exact hback (hfrom.trans hto)

namespace Walk

/-- The cycle that is closed at `unit` takes in the units that came later, in the order in which
    they were entered. -/
theorem closing_append {newer older : List String} {unit : String} (hnotin : unit ∉ newer) :
    closing unit (newer ++ unit :: older) = unit :: (newer.reverse ++ [unit]) := by
  have htake : (newer ++ unit :: older).takeWhile (· != unit) = newer := by
    rw [List.takeWhile_append_of_pos]
    · simp
    · intro name hname
      exact bne_iff_ne.mpr fun h => hnotin (h ▸ hname)
  simp only [closing, htake, List.cons_append]

theorem mem_closing {unit name : String} {path : List String} (hname : name ∈ closing unit path) :
    name = unit ∨ name ∈ path := by
  simp only [closing, List.mem_cons, List.mem_append, List.mem_reverse, List.not_mem_nil,
    or_false] at hname
  rcases hname with (hfirst | hlater) | hlast
  · exact .inl hfirst
  · exact .inr (List.takeWhile_subset _ hlater)
  · exact .inl hlast

/-- An edge back to a unit on the path closes a simple cycle. The path lists the newest unit first,
    so its edges run from right to left. -/
theorem closing_simpleCycle {path : List String} {newest unit : String}
    (hpath : path.IsChain fun a b => edges.Edge b a) (hnodup : path.Nodup)
    (hnewest : path.head? = some newest) (hedge : edges.Edge newest unit) (hunit : unit ∈ path) :
    SimpleCycle edges (closing unit path) := by
  obtain ⟨newer, older, rfl, hnotin⟩ := List.eq_append_cons_of_mem hunit
  have hring : (unit :: newer.reverse).IsChain edges.Edge := by
    have hpre : (newer ++ [unit]).IsChain fun a b => edges.Edge b a :=
      hpath.prefix ⟨older, by simp⟩
    simpa using List.isChain_reverse.mpr hpre
  have hlast : (unit :: newer.reverse).getLast? = some newest := by
    rw [← List.reverse_concat, List.getLast?_reverse, ← hnewest]
    simp
  rw [closing_append hnotin]
  refine ⟨.of_isChain hring hlast hedge, ?_⟩
  have hnewer : newer.Nodup := (List.nodup_append.mp hnodup).1
  rw [← List.cons_append, List.dropLast_concat, List.nodup_cons]
  exact ⟨by simpa using hnotin, List.nodup_reverse.mpr hnewer⟩

end Walk

end ImportCycles
