import ImportCycles.Proofs.Graph.History

open Relation (TransGen ReflTransGen)

namespace ImportCycles

namespace Graph

variable {g after : Graph} {a b : String} {refusal : Option Refusal}

/-- An edge between named units is refused only by a guard, and only as closing a cycle. -/
theorem Added.closesCycle_of_refused (hadded : Added g a b refusal after) (ha : a ≠ "") (hb : b ≠ "")
    (hrefused : refusal ≠ none) :
    g.allowCycles = false ∧ ∃ cycle, refusal = some (.closesCycle cycle) := by
  cases hadded with
  | emptyName hempty => exact absurd hempty (not_or.mpr ⟨ha, hb⟩)
  | unguarded => exact absurd rfl hrefused
  | harmless => exact absurd rfl hrefused
  | @refused cycle _ _ _ hguard => exact ⟨hguard, cycle, rfl⟩

/-- The cycle that a refused edge would close leads along it and the stored edges. -/
theorem Added.simpleCycle {cycle : List String}
    (hadded : Added g a b (some (.closesCycle cycle)) after) :
    SimpleCycle (g.connect a b).dependencies cycle := by
  cases hadded with
  | refused _ _ _ _ hfound => exact Walk.firstCycle?_simpleCycle hfound

/-- Without cycles so far, an edge is refused as closing one exactly if it is new and there is a
    way back along the stored edges. -/
theorem Added.closesCycle_iff (hadded : Added g a b refusal after) (hguard : g.allowCycles = false)
    (hacyclic : Acyclic g.dependencies.Edge) :
    (∃ cycle, refusal = some (.closesCycle cycle)) ↔
      (a ≠ "" ∧ b ≠ "") ∧ ¬ g.dependencies.Edge a b ∧ ReflTransGen g.dependencies.Edge b a := by
  cases hadded with
  | emptyName hempty =>
    refine iff_of_false (by simp) fun h => ?_
    exact hempty.elim h.1.1 h.1.2
  | unguarded _ _ hskip =>
    refine iff_of_false (by simp) fun h => ?_
    exact hskip.elim h.2.1 (by simp [hguard])
  | harmless _ _ _ hnone =>
    refine iff_of_false (by simp) fun h => ?_
    exact (firstCycle?_connect_eq_none_iff hacyclic).mp hnone h.2.2
  | @refused cycle ha hb hnew _ hfound =>
    refine iff_of_true ⟨cycle, rfl⟩ ⟨⟨ha, hb⟩, hnew, ?_⟩
    by_contra hback
    rw [(firstCycle?_connect_eq_none_iff hacyclic).mpr hback] at hfound
    cases hfound

/-- The guard of a strict graph is exact and leaves no trace of what it refuses. It refuses empty
    names, and new edges with a way back; it then returns the very graph it was given. Any other
    edge is added to those stored, in both tables, so no state of the graph has a cycle. -/
theorem strict_add_exact (hreach : Reachable false g) (a b : String) :
    ((g.add a b).1 = some .emptyName ↔ a = "" ∨ b = "") ∧
    ((∃ cycle, (g.add a b).1 = some (.closesCycle cycle)) ↔
      (a ≠ "" ∧ b ≠ "") ∧ ¬ g.dependencies.Edge a b ∧
        (a = b ∨ TransGen g.dependencies.Edge b a)) ∧
    ((g.add a b).1 ≠ none → (g.add a b).2 = g) ∧
    ((g.add a b).1 = none → ∀ x y,
      ((g.add a b).2.dependencies.Edge x y ↔ g.dependencies.Edge x y ∨ (x = a ∧ y = b)) ∧
      ((g.add a b).2.visibility.Edge y x ↔ g.dependencies.Edge x y ∨ (x = a ∧ y = b))) ∧
    Acyclic g.dependencies.Edge := by
  have hadded := added_add g a b
  have hmirrored := hreach.wellFormed.mirrored
  have hcloses := hadded.closesCycle_iff hreach.allowCycles_eq hreach.acyclic
  rw [Relation.reflTransGen_iff_eq_or_transGen] at hcloses
  refine ⟨hadded.eq_emptyName_iff, hcloses, ?_, ?_, hreach.acyclic⟩
  · intro hrefused
    rcases hadded.connect_or_same hmirrored with ⟨haccepted, _⟩ | ⟨_, hsame⟩
    · exact absurd haccepted hrefused
    · exact hsame
  · intro haccepted x y
    have hconnect : (g.add a b).2 = g.connect a b := by
      rcases hadded.connect_or_same hmirrored with ⟨_, hconnect⟩ | ⟨hrefused, _⟩
      · exact hconnect
      · exact absurd haccepted hrefused
    rw [hconnect, (hmirrored.connect a b).sides x y]
    exact ⟨edge_connect_iff g a b x y, edge_connect_iff g a b x y⟩

/-- A strict graph that refused to close its ring, and was audited afterwards. -/
def guardedRing : Graph :=
  ((((empty false).add "a" "b").2.add "b" "c").2.add "c" "a").2.auditInOrder ["b", "a"]

theorem strict_add_exact_guardedRing :
    Reachable false guardedRing ∧
    (∃ cycle, (guardedRing.add "c" "a").1 = some (.closesCycle cycle)) ∧
    (guardedRing.add "c" "a").2 = guardedRing ∧
    (guardedRing.add "a" "c").2.dependencies.Edge "a" "c" ∧
    Acyclic guardedRing.dependencies.Edge := by
  have hreach : Reachable false guardedRing :=
    ((((reachable_empty false).add "a" "b").add "b" "c").add "c" "a").auditInOrder (by decide)
  obtain ⟨_, hcloses, hsame, _, hacyclic⟩ := strict_add_exact hreach "c" "a"
  obtain ⟨_, _, _, hstores, _⟩ := strict_add_exact hreach "a" "c"
  have hback : TransGen guardedRing.dependencies.Edge "a" "c" :=
    .head (by decide) (.single (by decide : guardedRing.dependencies.Edge "b" "c"))
  obtain ⟨cycle, hcycle⟩ := hcloses.mpr ⟨by decide, by decide, .inr hback⟩
  refine ⟨hreach, ⟨cycle, hcycle⟩, hsame (by simp [hcycle]), ?_, hacyclic⟩
  exact (hstores (by decide) "a" "c").1.mpr (.inr ⟨rfl, rfl⟩)

end Graph

end ImportCycles
