import ImportCycles.Proofs.Graph.History
import ImportCycles.Proofs.Walk.FirstCycle

open Relation (TransGen ReflTransGen)

namespace ImportCycles

namespace Graph

/-- What can be asked of a graph. The tasks of an audit run one after another, in a given order. -/
inductive Request where
  | add (depender dependent : String)
  | findCycle (unit : String)
  | audit (roots : List String)

/-- What a graph answers. -/
inductive Answer where
  | added (refusal : Option Refusal)
  | found (trace : Option String)
  | audited (traces : List String) (allClear : Bool)

/-- The answer to a request, and the graph that there is after it. -/
def serve (g : Graph) : Request → Answer × Graph
  | .add depender dependent =>
    let (refusal, after) := g.add depender dependent
    (.added refusal, after)
  | .findCycle unit => (.found (g.findCycle unit), g)
  | .audit roots =>
    let after := g.auditInOrder roots
    (.audited after.cycles after.allClear, after)

/-- The answers to some requests, one after another, and the graph that there is in the end. -/
def serveAll (g : Graph) : List Request → List Answer × Graph
  | [] => ([], g)
  | request :: rest =>
    let (answer, next) := g.serve request
    let (answers, after) := next.serveAll rest
    (answer :: answers, after)

variable {g : Graph} {unit : String}

theorem serveAll_append (g : Graph) (requests more : List Request) :
    g.serveAll (requests ++ more) =
      ((g.serveAll requests).1 ++ ((g.serveAll requests).2.serveAll more).1,
        ((g.serveAll requests).2.serveAll more).2) := by
  induction requests generalizing g with
  | nil => rfl
  | cons request rest ih =>
    simp only [List.cons_append, serveAll]
    rw [ih]

theorem length_serveAll (g : Graph) (requests : List Request) :
    (g.serveAll requests).1.length = requests.length := by
  induction requests generalizing g with
  | nil => rfl
  | cons request rest ih => simp only [serveAll, List.length_cons, ih]

/-- A search among other requests takes its place among the answers. The other answers, and the
    graph that is left, are those without it. -/
theorem serveAll_findCycle (g : Graph) (before later : List Request) (unit : String) :
    (g.serveAll (before ++ .findCycle unit :: later)).2 = (g.serveAll (before ++ later)).2 ∧
      (g.serveAll (before ++ .findCycle unit :: later)).1.eraseIdx before.length =
        (g.serveAll (before ++ later)).1 := by
  rw [serveAll_append, serveAll_append]
  refine ⟨rfl, ?_⟩
  rw [← length_serveAll g before, List.eraseIdx_append_of_length_le (Nat.le_refl _), Nat.sub_self]
  rfl

/-- What a search answers with is a simple cycle that the unit leads to. -/
theorem exists_of_findCycle {trace : String} (hfound : g.findCycle unit = some trace) :
    ∃ first others, trace = Route.join (first :: (others ++ [first])) ∧
      SimpleCycle g.dependencies (first :: (others ++ [first])) ∧
      ReflTransGen g.dependencies.Edge unit first := by
  obtain ⟨cycle, hcycle, rfl⟩ := Option.map_eq_some_iff.mp hfound
  obtain ⟨s, closer, hcloses, rfl⟩ := Walk.exists_closes hcycle
  have hsimple := hcloses.simpleCycle
  obtain ⟨first, others, hclosed⟩ := hsimple.closed
  obtain rfl : closer = first := (List.cons.inj hclosed).1
  rw [hclosed] at hsimple ⊢
  exact ⟨closer, others, rfl, hsimple, (hcloses.reaches closer hcloses.mem_path).to_reflTransGen⟩

theorem no_loop_of_findCycle_eq_none (hnone : g.findCycle unit = none) {other : String}
    (hreach : ReflTransGen g.dependencies.Edge unit other) :
    ¬ TransGen g.dependencies.Edge other other :=
  Walk.no_loop_of_firstCycle?_eq_none (Option.map_eq_none_iff.mp hnone) hreach

/-- A search is exact and silent. It finds nothing exactly if no cycle is within reach of the unit,
    be it through the unit itself or after any number of edges; else it answers with a simple cycle
    that the unit leads to. The graph is the same afterwards, and so is every answer that it gives
    in the course of any history. -/
theorem findCycle_exact (g : Graph) (unit : String) :
    (g.findCycle unit = none ↔ ∀ other, ReflTransGen g.dependencies.Edge unit other →
      ¬ TransGen g.dependencies.Edge other other) ∧
    (∀ trace, g.findCycle unit = some trace → ∃ first others,
      trace = Route.join (first :: (others ++ [first])) ∧ (first :: others).Nodup ∧
        (first :: (others ++ [first])).IsChain g.dependencies.Edge ∧
        ReflTransGen g.dependencies.Edge unit first) ∧
    g.serve (.findCycle unit) = (.found (g.findCycle unit), g) ∧
    ∀ (earlier : Graph) (before later : List Request),
      (earlier.serveAll (before ++ .findCycle unit :: later)).2 =
          (earlier.serveAll (before ++ later)).2 ∧
        (earlier.serveAll (before ++ .findCycle unit :: later)).1.eraseIdx before.length =
          (earlier.serveAll (before ++ later)).1 := by
  refine ⟨⟨fun hnone _ => no_loop_of_findCycle_eq_none hnone, fun hnoloop => ?_⟩, ?_, rfl, ?_⟩
  · refine Option.eq_none_iff_forall_ne_some.mpr fun trace hfound => ?_
    obtain ⟨first, others, -, hsimple, hreach⟩ := exists_of_findCycle hfound
    exact hnoloop first hreach (hsimple.loop List.mem_cons_self)
  · intro trace hfound
    obtain ⟨first, others, rfl, hsimple, hreach⟩ := exists_of_findCycle hfound
    have hdistinct := hsimple.distinct
    rw [← List.cons_append, List.dropLast_concat] at hdistinct
    exact ⟨first, others, rfl, hdistinct, hsimple.follows, hreach⟩
  · exact fun earlier before later => serveAll_findCycle earlier before later unit

end Graph

end ImportCycles
