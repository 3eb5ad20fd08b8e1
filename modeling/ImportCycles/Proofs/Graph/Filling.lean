import ImportCycles.Proofs.Graph.Guard

open Relation (TransGen ReflTransGen)

namespace ImportCycles

/-- The steps along a route, each from a unit to the next. -/
def stepsOf (route : List String) : List (String × String) :=
  route.zip route.tail

theorem map_fst_stepsOf (route : List String) : (stepsOf route).map (·.1) = route.dropLast := by
  induction route with
  | nil => rfl
  | cons first rest ih =>
    cases rest with
    | nil => rfl
    | cons second more => simpa [stepsOf] using ih

theorem isChain_stepsOf (route : List String) :
    route.IsChain fun a b => (a, b) ∈ stepsOf route := by
  induction route with
  | nil => exact .nil
  | cons first rest ih =>
    cases rest with
    | nil => exact .singleton first
    | cons second more =>
      refine List.isChain_cons_cons.mpr ⟨by simp [stepsOf], ih.imp fun a b hstep => ?_⟩
      exact List.mem_cons_of_mem _ hstep

/-- What holds from each unit of a route to the next holds of its steps. -/
theorem rel_of_mem_stepsOf {r : String → String → Prop} {route : List String}
    (hchain : route.IsChain r) {a b : String} (hstep : (a, b) ∈ stepsOf route) : r a b := by
  induction route with
  | nil => cases hstep
  | cons first rest ih =>
    cases rest with
    | nil => cases hstep
    | cons second more =>
      obtain ⟨hfirst, hrest⟩ := List.isChain_cons_cons.mp hchain
      rcases List.mem_cons.mp hstep with heq | hmore
      · cases heq
        exact hfirst
      · exact ih hrest hmore

/-- Along a route that leaves each unit once, the step from a unit is determined. -/
theorem stepsOf_unique {route : List String} (hdistinct : route.dropLast.Nodup) {a b c : String}
    (hb : (a, b) ∈ stepsOf route) (hc : (a, c) ∈ stepsOf route) : b = c := by
  rw [← map_fst_stepsOf] at hdistinct
  have hsame := List.inj_on_of_nodup_map hdistinct hb hc rfl
  exact congrArg Prod.snd hsame

theorem nodup_stepsOf {route : List String} (hdistinct : route.dropLast.Nodup) :
    (stepsOf route).Nodup :=
  .of_map (·.1) (by rwa [map_fst_stepsOf])

theorem mem_of_mem_stepsOf {route : List String} {a b : String} (hstep : (a, b) ∈ stepsOf route) :
    a ∈ route :=
  (List.of_mem_zip hstep).1

theorem nodup_leaves {first : String} {others : List String}
    (hdistinct : (first :: others).Nodup) : (first :: (others ++ [first])).dropLast.Nodup := by
  rwa [← List.cons_append, List.dropLast_concat]

/-- What runs in a circle along the steps of a ring takes every step of it: from each unit on the
    circle there is one step only, and it stays on the circle. -/
theorem ring_of_loop {edge : String → String → Prop} {first : String} {others : List String}
    (hdistinct : (first :: others).Nodup)
    (hring : ∀ a b, edge a b → (a, b) ∈ stepsOf (first :: (others ++ [first])))
    {unit : String} (hloop : TransGen edge unit unit) {a b : String}
    (hstep : (a, b) ∈ stepsOf (first :: (others ++ [first]))) : edge a b := by
  have hleaves := nodup_leaves hdistinct
  have hround : ∀ x,
      ReflTransGen (fun x y => (x, y) ∈ stepsOf (first :: (others ++ [first]))) unit x →
        TransGen edge x x := by
    intro x hreach
    induction hreach with
    | refl => exact hloop
    | tail _ hnext ih =>
      obtain ⟨next, hedge, hback⟩ := TransGen.head'_iff.mp ih
      obtain rfl := stepsOf_unique hleaves (hring _ _ hedge) hnext
      exact .tail' hback hedge
  obtain ⟨next, hedge, _⟩ := TransGen.head'_iff.mp hloop
  have hunit := mem_of_mem_stepsOf (hring _ _ hedge)
  have ha := hround a (reaches_of_isChain (isChain_stepsOf _) hunit (mem_of_mem_stepsOf hstep))
  obtain ⟨next, hedge, _⟩ := TransGen.head'_iff.mp ha
  obtain rfl := stepsOf_unique hleaves (hring _ _ hedge) hstep
  exact hedge

namespace Graph

/-- The last of several edges is added to what the others have left. -/
theorem addAll_concat (g : Graph) (edges : List (String × String)) (edge : String × String) :
    g.addAll (edges ++ [edge]) =
      ((g.addAll edges).1 ++
          (((g.addAll edges).2.add edge.1 edge.2).1.map (edges.length, ·)).toList,
        ((g.addAll edges).2.add edge.1 edge.2).2) := by
  simp only [addAll, List.zipIdx_append, List.foldl_append, List.zipIdx_singleton, List.foldl_cons,
    List.foldl_nil, Nat.zero_add]
  split
  · rename_i hadd
    simp [hadd]
  · rename_i hadd
    simp [hadd]

/-- What is true of a strict graph after some insertions, of which `refused` were refused: it stores
    none but these edges, those that were not refused, and has a way back along each other one. -/
structure Filled (edges : List (String × String)) (refused : List (Nat × Refusal)) (g : Graph) :
    Prop where
  reachable : Reachable false g
  stored : ∀ a b, g.dependencies.Edge a b → (a, b) ∈ edges
  blocked : ∀ a b, (a, b) ∈ edges → ¬ g.dependencies.Edge a b →
    ReflTransGen g.dependencies.Edge b a
  refused_iff : ∀ i a b, edges[i]? = some (a, b) →
    ((∃ refusal, (i, refusal) ∈ refused) ↔ ¬ g.dependencies.Edge a b)
  refusals : ∀ entry ∈ refused, entry.1 < edges.length ∧ ∃ cycle, entry.2 = .closesCycle cycle

variable {edges : List (String × String)} {refused : List (Nat × Refusal)} {g : Graph}
  {a b : String}

theorem filled_empty : Filled [] [] (empty false) where
  reachable := reachable_empty false
  stored a b hedge := absurd hedge (Table.not_edge_nil a b)
  blocked := by simp
  refused_iff := by simp
  refusals := by simp

/-- The edge at a position of a longer list is an old one, or the one that came last. -/
private theorem getElem?_concat_cases {edge last : String × String} {i : Nat}
    (hedge : (edges ++ [last])[i]? = some edge) :
    edges[i]? = some edge ∨ (i = edges.length ∧ edge = last) := by
  rcases Nat.lt_trichotomy i edges.length with hlt | rfl | hlt
  · rw [List.getElem?_append_left hlt] at hedge
    exact .inl hedge
  · rw [List.getElem?_concat_length, Option.some.injEq] at hedge
    exact .inr ⟨rfl, hedge.symm⟩
  · simp [List.getElem?_append_right hlt.le, Nat.sub_ne_zero_of_lt hlt] at hedge

/-- An edge that is accepted does not let in one that was refused: that one still has a way back
    along it, and would be refused again. -/
theorem Filled.accept (hfilled : Filled edges refused g) (ha : a ≠ "") (hb : b ≠ "")
    (haccepted : (g.add a b).1 = none) : Filled (edges ++ [(a, b)]) refused (g.add a b).2 := by
  obtain ⟨hreach, hstored, hblocked, hrefused, hrefusals⟩ := hfilled
  have hadded := added_add g a b
  have hcloses := hadded.closesCycle_iff hreach.allowCycles_eq hreach.acyclic
  have hedge : ∀ x y, (g.add a b).2.dependencies.Edge x y ↔
      g.dependencies.Edge x y ∨ (x = a ∧ y = b) := by
    rcases hadded.connect_or_same hreach.wellFormed.mirrored with ⟨_, hafter⟩ | ⟨hno, _⟩
    · rw [hafter]
      exact edge_connect_iff g a b
    · exact absurd haccepted hno
  have hsame : ∀ x y, (x, y) ∈ edges →
      ((g.add a b).2.dependencies.Edge x y ↔ g.dependencies.Edge x y) := by
    intro x y hmem
    refine ⟨fun hnow => ?_, fun hold => (hedge x y).mpr (.inl hold)⟩
    by_contra hnew
    obtain ⟨rfl, rfl⟩ := ((hedge x y).mp hnow).resolve_left hnew
    obtain ⟨cycle, hcycle⟩ := hcloses.mpr ⟨⟨ha, hb⟩, hnew, hblocked x y hmem hnew⟩
    simp [haccepted] at hcycle
  have hnow : (g.add a b).2.dependencies.Edge a b := (hedge a b).mpr (.inr ⟨rfl, rfl⟩)
  refine ⟨hreach.add a b, ?_, ?_, ?_, ?_⟩
  · intro x y hstays
    rcases (hedge x y).mp hstays with hold | ⟨rfl, rfl⟩
    · exact List.mem_append_left _ (hstored x y hold)
    · simp
  · intro x y hmem hout
    rcases List.mem_append.mp hmem with hmem | hmem
    · have hback := hblocked x y hmem (mt (hsame x y hmem).mpr hout)
      exact ReflTransGen.mono (fun x y hold => (hedge x y).mpr (.inl hold)) _ _ hback
    · obtain ⟨rfl, rfl⟩ : x = a ∧ y = b := by simpa using hmem
      exact absurd hnow hout
  · intro i x y hposition
    rcases getElem?_concat_cases hposition with hold | ⟨rfl, hlast⟩
    · rw [hrefused i x y hold, hsame x y (List.mem_of_getElem? hold)]
    · obtain ⟨rfl, rfl⟩ := Prod.mk.inj hlast
      refine iff_of_false (fun ⟨refusal, hmem⟩ => ?_) (not_not_intro hnow)
      exact absurd (hrefusals _ hmem).1 (Nat.lt_irrefl _)
  · intro entry hentry
    obtain ⟨hlt, hcycle⟩ := hrefusals entry hentry
    exact ⟨by simp; omega, hcycle⟩

theorem Filled.refuse (hfilled : Filled edges refused g) (ha : a ≠ "") (hb : b ≠ "")
    {refusal : Refusal} (hrefusal : (g.add a b).1 = some refusal) :
    Filled (edges ++ [(a, b)]) (refused ++ [(edges.length, refusal)]) (g.add a b).2 := by
  obtain ⟨hreach, hstored, hblocked, hrefused, hrefusals⟩ := hfilled
  have hadded := added_add g a b
  have hne : (g.add a b).1 ≠ none := by simp [hrefusal]
  obtain ⟨hguard, cycle, hcycle⟩ := hadded.closesCycle_of_refused ha hb hne
  obtain ⟨_, hnew, hback⟩ := (hadded.closesCycle_iff hguard hreach.acyclic).mp ⟨cycle, hcycle⟩
  have hafter : (g.add a b).2 = g := by
    rcases hadded.connect_or_same hreach.wellFormed.mirrored with ⟨haccepted, _⟩ | ⟨_, hafter⟩
    · exact absurd haccepted hne
    · exact hafter
  rw [hafter]
  refine ⟨hreach, fun x y hold => List.mem_append_left _ (hstored x y hold), ?_, ?_, ?_⟩
  · intro x y hmem hout
    rcases List.mem_append.mp hmem with hmem | hmem
    · exact hblocked x y hmem hout
    · obtain ⟨rfl, rfl⟩ : x = a ∧ y = b := by simpa using hmem
      exact hback
  · intro i x y hposition
    rcases getElem?_concat_cases hposition with hold | ⟨rfl, hlast⟩
    · obtain ⟨hlt, _⟩ := List.getElem?_eq_some_iff.mp hold
      rw [← hrefused i x y hold]
      simp [hlt.ne]
    · obtain ⟨rfl, rfl⟩ := Prod.mk.inj hlast
      exact iff_of_true ⟨refusal, by simp⟩ hnew
  · intro entry hentry
    rcases List.mem_append.mp hentry with hold | hlast
    · obtain ⟨hlt, hclosed⟩ := hrefusals entry hold
      exact ⟨by simp; omega, hclosed⟩
    · obtain rfl := List.mem_singleton.mp hlast
      exact ⟨by simp, cycle, Option.some.inj (hrefusal.symm.trans hcycle)⟩

theorem filled_addAll (hnamed : ∀ edge ∈ edges, edge.1 ≠ "" ∧ edge.2 ≠ "") :
    Filled edges ((empty false).addAll edges).1 ((empty false).addAll edges).2 := by
  induction edges using List.reverseRecOn with
  | nil => exact filled_empty
  | append_singleton edges edge ih =>
    obtain ⟨hedges, hedge⟩ := List.forall_mem_append.mp hnamed
    obtain ⟨ha, hb⟩ := hedge edge (by simp)
    have hfilled := ih hedges
    rw [addAll_concat]
    cases hadd : (((empty false).addAll edges).2.add edge.1 edge.2).1 with
    | none => simpa using hfilled.accept ha hb hadd
    | some refusal => exact hfilled.refuse ha hb hadd

/-- Something is refused exactly if the edges have a cycle among them. -/
theorem Filled.refused_ne_nil_iff (hfilled : Filled edges refused g) :
    refused ≠ [] ↔ ¬ Acyclic fun a b => (a, b) ∈ edges := by
  obtain ⟨hreach, hstored, hblocked, hrefused, hrefusals⟩ := hfilled
  constructor
  · intro hsome hacyclic
    obtain ⟨⟨i, refusal⟩, hentry⟩ := List.exists_mem_of_ne_nil refused hsome
    obtain ⟨hlt, _⟩ := hrefusals _ hentry
    have hposition : edges[i]? = some (edges[i].1, edges[i].2) := List.getElem?_eq_getElem hlt
    have hmem := List.mem_of_getElem? hposition
    have hout := (hrefused i _ _ hposition).mp ⟨refusal, hentry⟩
    have hback : ReflTransGen (fun a b => (a, b) ∈ edges) edges[i].2 edges[i].1 :=
      ReflTransGen.mono hstored _ _ (hblocked _ _ hmem hout)
    exact hacyclic _ (.head' hmem hback)
  · rintro hcyclic rfl
    refine hcyclic (hreach.acyclic.mono fun a b hmem => ?_)
    obtain ⟨i, hposition⟩ := List.mem_iff_getElem?.mp hmem
    by_contra hout
    obtain ⟨refusal, hnone⟩ := (hrefused i a b hposition).mpr hout
    cases hnone

/-- Of the steps of a ring, in whatever order they come, only the last is refused: without it they
    do not run in a circle. -/
theorem addAll_ring {first : String} {others : List String}
    (hnamed : ∀ edge ∈ edges, edge.1 ≠ "" ∧ edge.2 ≠ "") (hdistinct : (first :: others).Nodup)
    (hring : edges.Perm (stepsOf (first :: (others ++ [first])))) :
    ∃ cycle, ((empty false).addAll edges).1 = [(edges.length - 1, .closesCycle cycle)] := by
  have hloop : TransGen (fun a b => (a, b) ∈ edges) first first := by
    simp only [hring.mem_iff]
    exact transGen_of_isChain (isChain_stepsOf _)
  have hfilled := filled_addAll hnamed
  have hsome := hfilled.refused_ne_nil_iff.mpr fun hacyclic => hacyclic first hloop
  have hclosed := hfilled.refusals
  have honce : edges.Nodup := by
    apply hring.nodup_iff.mpr
    exact nodup_stepsOf (nodup_leaves hdistinct)
  rcases List.eq_nil_or_concat' edges with rfl | ⟨earlier, last, rfl⟩
  · simp [addAll] at hsome
  · have hearlier : ((empty false).addAll earlier).1 = [] := by
      have hnamed : ∀ edge ∈ earlier, edge.1 ≠ "" ∧ edge.2 ≠ "" :=
        fun edge hedge => hnamed edge (List.mem_append_left _ hedge)
      by_contra hrefused
      have hcyclic := (filled_addAll hnamed).refused_ne_nil_iff.mp hrefused
      refine hcyclic fun unit hround => ?_
      have hsteps : ∀ a b, (a, b) ∈ earlier → (a, b) ∈ stepsOf (first :: (others ++ [first])) :=
        fun a b hmem => hring.mem_iff.mp (List.mem_append_left _ hmem)
      have hlast : (last.1, last.2) ∈ stepsOf (first :: (others ++ [first])) :=
        hring.mem_iff.mp (by simp)
      have hmem := ring_of_loop hdistinct hsteps hround hlast
      exact (List.nodup_append.mp honce).2.2 last hmem last (by simp) rfl
    rw [addAll_concat, hearlier, List.nil_append] at hsome hclosed ⊢
    cases hadd : (((empty false).addAll earlier).2.add last.1 last.2).1 with
    | none => simp [hadd] at hsome
    | some refusal =>
      obtain ⟨_, cycle, rfl⟩ := hclosed (earlier.length, refusal) (by simp [hadd])
      exact ⟨cycle, by simp⟩

/-- Filling a strict graph keeps a maximal acyclic part of the edges, whatever their order. All that
    is kept is among them and has no cycle; nothing acyclic among them is larger, since a refused
    edge has a way back along the kept ones. The refusals stand for the edges that are not kept, and
    there are any exactly if the edges have a cycle among them. Of the edges of one ring, each
    listed once, only the last to come is refused. -/
theorem addAll_maximal (hnamed : ∀ edge ∈ edges, edge.1 ≠ "" ∧ edge.2 ≠ "")
    (hfill : (empty false).addAll edges = (refused, g)) :
    (∀ a b, g.dependencies.Edge a b → (a, b) ∈ edges) ∧
    Acyclic g.dependencies.Edge ∧
    (∀ a b, (a, b) ∈ edges → ¬ g.dependencies.Edge a b →
      a = b ∨ TransGen g.dependencies.Edge b a) ∧
    (∀ kept : String → String → Prop, (∀ a b, g.dependencies.Edge a b → kept a b) →
      (∀ a b, kept a b → (a, b) ∈ edges) → Acyclic kept → ∀ a b, kept a b →
        g.dependencies.Edge a b) ∧
    (∀ i a b, edges[i]? = some (a, b) →
      ((∃ refusal, (i, refusal) ∈ refused) ↔ ¬ g.dependencies.Edge a b)) ∧
    (∀ entry ∈ refused, ∃ cycle, entry.2 = .closesCycle cycle) ∧
    (refused ≠ [] ↔ ¬ Acyclic fun a b => (a, b) ∈ edges) ∧
    (∀ first others, (first :: others).Nodup →
      edges.Perm (stepsOf (first :: (others ++ [first]))) →
        ∃ cycle, refused = [(edges.length - 1, .closesCycle cycle)]) := by
  have hfilled := filled_addAll hnamed
  have hring : ∀ first others, (first :: others).Nodup →
      edges.Perm (stepsOf (first :: (others ++ [first]))) →
        ∃ cycle, ((empty false).addAll edges).1 = [(edges.length - 1, .closesCycle cycle)] :=
    fun first others => addAll_ring hnamed
  rw [hfill] at hfilled hring
  have hverdict := hfilled.refused_ne_nil_iff
  obtain ⟨hreach, hstored, hblocked, hrefused, hrefusals⟩ := hfilled
  refine ⟨hstored, hreach.acyclic, ?_, ?_, hrefused, fun entry hentry => (hrefusals entry hentry).2,
    hverdict, hring⟩
  · intro a b hmem hout
    have hback := hblocked a b hmem hout
    rwa [Relation.reflTransGen_iff_eq_or_transGen] at hback
  · intro kept hmore hless hacyclic a b hkept
    by_contra hout
    have hback := ReflTransGen.mono hmore _ _ (hblocked a b (hless a b hkept) hout)
    exact hacyclic a (.head' hkept hback)

/-- The steps of a ring and of one that shares a unit with it, and a unit that depends on itself.
    The step that closes the first ring comes twice. -/
def tangledRings : List (String × String) :=
  [("b", "c"), ("a", "b"), ("c", "a"), ("d", "d"), ("c", "d"), ("c", "a"), ("d", "c")]

theorem addAll_maximal_tangledRings :
    (∀ edge ∈ tangledRings, edge.1 ≠ "" ∧ edge.2 ≠ "") ∧
    Acyclic ((empty false).addAll tangledRings).2.dependencies.Edge ∧
    TransGen ((empty false).addAll tangledRings).2.dependencies.Edge "a" "c" ∧
    (∃ refusal, (5, refusal) ∈ ((empty false).addAll tangledRings).1) ∧
    (¬ Acyclic fun a b => (a, b) ∈ tangledRings) ∧
    ∃ cycle, ((empty false).addAll (tangledRings.take 3)).1 = [(2, .closesCycle cycle)] := by
  have hnamed : ∀ edge ∈ tangledRings, edge.1 ≠ "" ∧ edge.2 ≠ "" := by decide
  have hring : ∀ edge ∈ tangledRings.take 3, edge.1 ≠ "" ∧ edge.2 ≠ "" := by decide
  obtain ⟨_, hacyclic, hback, _, hrefused, _, hverdict, _⟩ := addAll_maximal hnamed rfl
  obtain ⟨_, _, _, _, _, _, _, hlast⟩ := addAll_maximal hring rfl
  have hout : ¬ ((empty false).addAll tangledRings).2.dependencies.Edge "c" "a" := by decide
  refine ⟨hnamed, hacyclic, (hback "c" "a" (by decide) hout).resolve_left (by decide),
    (hrefused 5 "c" "a" rfl).mpr hout, hverdict.mp (by decide), ?_⟩
  exact hlast "a" ["b", "c"] (by decide) (by decide)

end Graph

end ImportCycles
