import ImportCycles.Proofs.Graph.Filling
import ImportCycles.Proofs.Walk.FirstCycle

open Relation (TransGen ReflTransGen)

namespace ImportCycles

/-- A way from one unit to another along the edges that meets no unit twice. -/
structure SimplePath (edge : String → String → Prop) (first last : String) (units : List String) :
    Prop where
  starts : units.head? = some first
  ends : units.getLast? = some last
  follows : units.IsChain edge
  distinct : units.Nodup

/-- Of all such ways the one that comes first, unit by unit in code point order. -/
structure LeastPath (edge : String → String → Prop) (first last : String) (units : List String) :
    Prop extends SimplePath edge first last units where
  least : ∀ other, SimplePath edge first last other →
    units = other ∨ List.Lex (· < ·) units other

variable {edge : String → String → Prop} {first last : String} {units other route : List String}

/-- Without its first unit a way is one that starts at the second. -/
theorem SimplePath.tail {unit next : String} {rest : List String}
    (hpath : SimplePath edge first last (unit :: next :: rest)) :
    edge unit next ∧ SimplePath edge next last (next :: rest) := by
  obtain ⟨-, hends, hfollows, hdistinct⟩ := hpath
  obtain ⟨hstep, hrest⟩ := List.isChain_cons_cons.mp hfollows
  rw [List.getLast?_cons_cons] at hends
  exact ⟨hstep, rfl, hends, hrest, hdistinct.of_cons⟩

theorem SimplePath.reaches (hpath : SimplePath edge first last units) :
    ReflTransGen edge first last := by
  obtain ⟨hstarts, hends, hfollows, -⟩ := hpath
  obtain ⟨rest, rfl⟩ := List.head?_eq_some_iff.mp hstarts
  refine List.relationReflTransGen_of_exists_isChain_cons rest hfollows ?_
  rwa [← Option.some.injEq, ← List.getLast?_eq_some_getLast]

/-- A way that has only one unit stays there. -/
theorem SimplePath.eq_singleton (hpath : SimplePath edge first first units) : units = [first] := by
  obtain ⟨hstarts, hends, -, hdistinct⟩ := hpath
  match units with
  | [] => cases hstarts
  | [_] => simpa using hstarts
  | unit :: next :: rest =>
    obtain rfl : unit = first := by simpa using hstarts
    rw [List.getLast?_cons_cons] at hends
    exact absurd (List.mem_of_getLast? hends) (List.nodup_cons.mp hdistinct).1

/-- A way is least if lesser names than the next unit never lead to its end. -/
theorem SimplePath.least (hpath : SimplePath edge first last units)
    (hgreedy : units.IsChain fun older unit =>
      ∀ name, edge older name → name < unit → ¬ ReflTransGen edge name last)
    (hother : SimplePath edge first last other) :
    units = other ∨ List.Lex (· < ·) units other := by
  induction units generalizing first other with
  | nil => cases hpath.starts
  | cons unit rest ih =>
    obtain rfl : unit = first := by simpa using hpath.starts
    match rest, other with
    | [], _ =>
      obtain rfl : unit = last := by simpa using hpath.ends
      exact .inl hother.eq_singleton.symm
    | _ :: _, [] => cases hother.starts
    | next :: rest, [name] =>
      obtain rfl : name = unit := by simpa using hother.starts
      obtain rfl : name = last := by simpa using hother.ends
      cases hpath.eq_singleton
    | next :: rest, name :: second :: more =>
      obtain rfl : name = unit := by simpa using hother.starts
      obtain ⟨hfirst, hafter⟩ := List.isChain_cons_cons.mp hgreedy
      obtain ⟨hstep, hmore⟩ := hother.tail
      have hle : next ≤ second :=
        String.not_lt.mp fun hlt => hfirst second hstep hlt hmore.reaches
      by_cases hnext : next = second
      · subst hnext
        rcases ih hpath.tail.2 hafter hmore with heq | hlex
        · exact .inl (congrArg (name :: ·) heq)
        · exact .inr (.cons hlex)
      · exact .inr (.cons (.rel (lt_of_le_ne hle hnext)))

/-- There is one least way at most. -/
theorem LeastPath.unique (hpath : LeastPath edge first last units)
    (hother : LeastPath edge first last other) : units = other := by
  rcases hpath.least other hother.toSimplePath with heq | hlt
  · exact heq
  · rcases hother.least units hpath.toSimplePath with heq | hgt
    · exact heq.symm
    · exact absurd hgt (List.lt_asymm hlt)

theorem mem_tail_of_mem_stepsOf {a b : String} (hstep : (a, b) ∈ stepsOf route) :
    b ∈ route.tail :=
  (List.of_mem_zip hstep).2

/-- The only step to the end of a route, if the route does not meet it earlier, is the last one. -/
theorem getLast?_of_mem_stepsOf {unit : String} {others : List String} (hnotin : last ∉ others)
    (hstep : (unit, last) ∈ stepsOf (first :: (others ++ [last]))) :
    (first :: others).getLast? = some unit := by
  induction others generalizing first with
  | nil =>
    obtain rfl : unit = first := by simpa [stepsOf] using hstep
    rfl
  | cons second more ih =>
    obtain ⟨hne, hnotin⟩ := not_or.mp (mt List.mem_cons.mpr hnotin)
    rcases List.mem_cons.mp hstep with heq | hstep
    · exact absurd (Prod.mk.inj heq).2 hne
    · rw [List.getLast?_cons_cons]
      exact ih hnotin hstep

namespace Walk

/-- A cycle that takes in the oldest unit of the path takes in the whole path, and closes there. -/
theorem closing_of_mem_oldest {path : List String} {unit oldest : String} (hnodup : path.Nodup)
    (hunit : unit ∈ path) (holdest : path.reverse.head? = some oldest)
    (hmem : oldest ∈ closing unit path) : closing unit path = path.reverse ++ [oldest] := by
  obtain ⟨newer, older, rfl, hnotin⟩ := List.eq_append_cons_of_mem hunit
  rw [closing_append hnotin] at hmem ⊢
  have hin : oldest ∈ newer ++ [unit] := by simpa [or_comm] using hmem
  rw [List.append_cons] at hnodup
  cases hrest : older.reverse with
  | nil =>
    obtain rfl : older = [] := List.reverse_eq_nil_iff.mp hrest
    obtain rfl : unit = oldest := by simpa using holdest
    simp
  | cons first more =>
    have hfirst : first = oldest := by simpa [hrest] using holdest
    have hbelow : oldest ∈ older := by
      rw [← hfirst, ← List.mem_reverse, hrest]
      exact List.mem_cons_self
    exact absurd hbelow (List.disjoint_of_nodup_append hnodup hin)

variable {edges : Table} {origin unit : String} {s : State}

theorem Closes.nodup (hcloses : Closes edges origin s unit) : s.path.Nodup :=
  (List.nodup_append.mp hcloses.invariant.enteredOnce).1

theorem Closes.isChain (hcloses : Closes edges origin s unit) :
    (origin :: s.path.reverse).IsChain edges.Edge := by
  have haligned := hcloses.invariant.aligned hcloses.frames_ne_nil
  simpa using List.isChain_reverse.mpr haligned.isChain_concat

/-- From a finished unit no way leads back to the path. -/
theorem Closes.not_reaches (hcloses : Closes edges origin s unit) {name older : String}
    (hname : name ∈ s.finished) (holder : older ∈ s.path) :
    ¬ ReflTransGen edges.Edge name older := by
  intro hback
  have hsettled := hcloses.invariant.settled
  rw [hcloses.known] at hsettled
  have hfinished : older ∈ s.finished := hsettled.closed hname (by rwa [openEdge_nil])
  exact List.disjoint_of_nodup_append hcloses.invariant.enteredOnce holder hfinished

/-- From no unit of the path could the walk have turned to a lesser name and come back to it. -/
theorem Closes.greedy (hcloses : Closes edges origin s unit) {last : String}
    (hlast : last ∈ s.path) :
    s.path.reverse.IsChain fun older unit =>
      ∀ name, edges.Edge older name → name < unit → ¬ ReflTransGen edges.Edge name last := by
  have horder := (hcloses.inOrder hcloses.frames_ne_nil).finished_of_lt
  have hpath := horder.prefix (show s.path <+: [] ++ s.path ++ [origin] by simp)
  refine List.isChain_reverse.mpr (hpath.imp fun unit older hbefore name hedge hlt => ?_)
  exact hcloses.not_reaches (hbefore name hedge hlt) hlast

end Walk

namespace Graph

variable {g after : Graph} {a b : String} {cycle : List String}

/-- A route that does not take the new edge runs along the old ones. -/
theorem isChain_of_connect (hchain : route.IsChain (g.connect a b).dependencies.Edge)
    (hout : (a, b) ∉ stepsOf route) : route.IsChain g.dependencies.Edge := by
  refine (isChain_stepsOf route).imp fun x y hstep => ?_
  rcases (edge_connect_iff g a b x y).mp (rel_of_mem_stepsOf hchain hstep) with hold | ⟨rfl, rfl⟩
  · exact hold
  · exact absurd hstep hout

/-- A circuit in a graph that had none takes the new edge. -/
theorem mem_stepsOf_of_circuit (hacyclic : Acyclic g.dependencies.Edge)
    (hcircuit : Circuit (g.connect a b).dependencies units) : (a, b) ∈ stepsOf units := by
  by_contra hout
  have hold : Circuit g.dependencies units :=
    ⟨hcircuit.closed, isChain_of_connect hcircuit.follows hout⟩
  exact hold.not_acyclic hacyclic

/-- A route that comes back to `a` leaves it along the new edge. -/
theorem head?_of_connect (hacyclic : Acyclic g.dependencies.Edge)
    (hchain : (a :: route).IsChain (g.connect a b).dependencies.Edge) (hdistinct : route.Nodup)
    (ha : a ∈ route) : route.head? = some b := by
  obtain ⟨before, after, rfl, hnotin⟩ := List.eq_append_cons_of_mem ha
  have hround : (a :: (before ++ [a])).IsChain (g.connect a b).dependencies.Edge :=
    hchain.prefix ⟨after, by simp⟩
  have hnew := mem_stepsOf_of_circuit hacyclic ⟨⟨a, before, rfl⟩, hround⟩
  have hleaves := nodup_leaves (List.nodup_cons.mpr ⟨hnotin, (List.nodup_append.mp hdistinct).1⟩)
  cases before with
  | nil => simpa [stepsOf, eq_comm] using hnew
  | cons first more =>
    have hfirst : (a, first) ∈ stepsOf (a :: (first :: more ++ [a])) := by simp [stepsOf]
    exact congrArg some (stepsOf_unique hleaves hfirst hnew)

/-- When a walk from `a` closes the cycle that the new edge has brought, its path starts at `b`
    and ends at `a`, and it is at `b` that the cycle closes. -/
theorem closes_connect (hacyclic : Acyclic g.dependencies.Edge) {s : Walk.State} {unit : String}
    (hcloses : Walk.Closes (g.connect a b).dependencies a s unit) :
    SimplePath g.dependencies.Edge b a s.path.reverse ∧
      Walk.closing unit s.path = s.path.reverse ++ [b] := by
  have hnodup := List.nodup_reverse.mpr hcloses.nodup
  have hnew := mem_stepsOf_of_circuit hacyclic hcloses.simpleCycle.toCircuit
  have ha : a ∈ s.path := by
    rcases Walk.mem_closing (mem_of_mem_stepsOf hnew) with rfl | ha
    · exact hcloses.mem_path
    · exact ha
  have hstarts := head?_of_connect hacyclic hcloses.isChain hnodup (List.mem_reverse.mpr ha)
  have hb : b ∈ (Walk.closing unit s.path).tail := mem_tail_of_mem_stepsOf hnew
  have hclosing := Walk.closing_of_mem_oldest hcloses.nodup hcloses.mem_path hstarts
    (List.mem_of_mem_tail hb)
  refine ⟨?_, hclosing⟩
  obtain ⟨rest, hpath⟩ := List.head?_eq_some_iff.mp hstarts
  rw [hclosing, hpath] at hnew
  rw [hpath] at hnodup ⊢
  have hnotin : b ∉ rest := (List.nodup_cons.mp hnodup).1
  have hchain : (b :: rest).IsChain (g.connect a b).dependencies.Edge := hpath ▸ hcloses.isChain.tail
  exact {
    starts := rfl
    ends := getLast?_of_mem_stepsOf hnotin hnew
    follows := isChain_of_connect hchain fun hstep => hnotin (mem_tail_of_mem_stepsOf hstep)
    distinct := hnodup }

/-- The cycle of a refusal goes along the least way back and then takes the refused edge. -/
theorem Added.leastPath {refusal : Option Refusal} (hadded : Added g a b refusal after)
    (hacyclic : Acyclic g.dependencies.Edge) (hrefused : refusal = some (.closesCycle cycle)) :
    ∃ path, LeastPath g.dependencies.Edge b a path ∧ cycle = path ++ [b] := by
  cases hadded with
  | emptyName => simp at hrefused
  | unguarded => cases hrefused
  | harmless => cases hrefused
  | @refused found _ _ _ _ hfound =>
    obtain rfl : found = cycle := by simpa using hrefused
    obtain ⟨s, unit, hcloses, rfl⟩ := Walk.exists_closes hfound
    obtain ⟨hsimple, hcycle⟩ := closes_connect hacyclic hcloses
    have ha : a ∈ s.path := List.mem_reverse.mp (List.mem_of_getLast? hsimple.ends)
    have hold : ∀ x y, g.dependencies.Edge x y → (g.connect a b).dependencies.Edge x y :=
      fun x y hedge => (edge_connect_iff g a b x y).mpr (.inl hedge)
    have hgreedy := (hcloses.greedy ha).imp fun older unit hturn name hedge hlt hback =>
      hturn name (hold older name hedge) hlt (ReflTransGen.mono hold _ _ hback)
    exact ⟨s.path.reverse, ⟨hsimple, fun _ => hsimple.least hgreedy⟩, hcycle⟩

/-- A refusal names the canonical cycle. Whatever a strict graph has been through, when it refuses
    an edge as closing a cycle, the trace follows the least of all ways from the dependent back to
    the depender and then takes the refused edge. It does not depend on how the graph has come by
    its edges: any other strict graph that stores the same ones answers the same. -/
theorem refusal_canonical (hreach : Reachable false g)
    (hrefused : (g.add a b).1 = some (.closesCycle cycle)) :
    ∃ path, LeastPath g.dependencies.Edge b a path ∧
      (∀ other, LeastPath g.dependencies.Edge b a other → other = path) ∧
      (a = b → path = [a]) ∧
      cycle = path ++ [b] ∧
      (g.add a b).1.bind Refusal.trace = some (Route.join (path ++ [b])) ∧
      cycle.head? = some b ∧ cycle.getLast? = some b ∧ [a, b] <:+ cycle ∧
      ∀ h, Reachable false h → (∀ x y, h.dependencies.Edge x y ↔ g.dependencies.Edge x y) →
        (h.add a b).1 = some (.closesCycle cycle) := by
  obtain ⟨path, hleast, rfl⟩ := (added_add g a b).leastPath hreach.acyclic hrefused
  refine ⟨path, hleast, fun other hother => hother.unique hleast, ?_, rfl, ?_, ?_, ?_, ?_, ?_⟩
  · rintro rfl
    exact hleast.eq_singleton
  · rw [hrefused]
    rfl
  · rw [List.head?_append, hleast.starts, Option.some_or]
  · exact List.getLast?_concat
  · obtain ⟨before, hbefore⟩ := List.getLast?_eq_some_iff.mp hleast.ends
    exact ⟨before, by simp [hbefore]⟩
  · intro h hreach' hsame
    have hedges : h.dependencies.Edge = g.dependencies.Edge :=
      funext fun x => funext fun y => propext (hsame x y)
    have hcloses := (added_add g a b).closesCycle_iff hreach.allowCycles_eq hreach.acyclic
    rw [← hedges, ← (added_add h a b).closesCycle_iff hreach'.allowCycles_eq hreach'.acyclic]
      at hcloses
    obtain ⟨found, hfound⟩ := hcloses.mp ⟨_, hrefused⟩
    obtain ⟨other, hleast', rfl⟩ := (added_add h a b).leastPath hreach'.acyclic hfound
    rw [hedges] at hleast'
    rw [hfound, hleast'.unique hleast]

/-- Two ways lead back from `q` to `x`, and a dead end below both that the walk from `x` has left
    before it comes to `q`. -/
def twoWaysBack : Graph :=
  ((empty false).addAll [("x", "p"), ("p", "d"), ("q", "d"), ("q", "s"), ("s", "x"), ("q", "r"),
    ("r", "x")]).2

theorem refusal_canonical_twoWaysBack :
    (twoWaysBack.add "x" "q").1.bind Refusal.trace = some "q -> r -> x -> q" ∧
      LeastPath twoWaysBack.dependencies.Edge "q" "x" ["q", "r", "x"] := by
  have hreach : Reachable false twoWaysBack := (filled_addAll (by decide)).reachable
  have hrefused : (twoWaysBack.add "x" "q").1 = some (.closesCycle ["q", "r", "x", "q"]) := by
    decide
  obtain ⟨path, hleast, -, -, hcycle, htrace, -⟩ := refusal_canonical hreach hrefused
  obtain rfl : ["q", "r", "x"] = path := List.append_cancel_right hcycle
  exact ⟨htrace, hleast⟩

end Graph

end ImportCycles
