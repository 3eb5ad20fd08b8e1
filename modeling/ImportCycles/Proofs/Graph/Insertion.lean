import ImportCycles.Graph.Basic
import ImportCycles.Proofs.Walk.Outcome

open Relation (TransGen ReflTransGen)

namespace ImportCycles

namespace Graph

/-- All that adding an edge can come to. -/
inductive Added (g : Graph) (a b : String) : Option Refusal → Graph → Prop where
  | emptyName (hempty : a = "" ∨ b = "") : Added g a b (some .emptyName) g
  | unguarded (ha : a ≠ "") (hb : b ≠ "")
      (hskip : g.dependencies.Edge a b ∨ g.allowCycles = true) : Added g a b none (g.connect a b)
  | harmless (ha : a ≠ "") (hb : b ≠ "") (hnew : ¬ g.dependencies.Edge a b)
      (hnone : Walk.firstCycle? (g.connect a b).dependencies a = none) :
      Added g a b none (g.connect a b)
  | refused {cycle : List String} (ha : a ≠ "") (hb : b ≠ "") (hnew : ¬ g.dependencies.Edge a b)
      (hguard : g.allowCycles = false)
      (hfound : Walk.firstCycle? (g.connect a b).dependencies a = some cycle) :
      Added g a b (some (.closesCycle cycle)) ((g.connect a b).disconnect a b)

theorem added_add (g : Graph) (a b : String) : Added g a b (g.add a b).1 (g.add a b).2 := by
  have hedge : g.hasEdge a b = true ↔ g.dependencies.Edge a b := List.contains_iff_mem
  unfold add
  split
  · rename_i hempty
    exact .emptyName (by simpa using hempty)
  · rename_i hnames
    simp only [Bool.or_eq_true, String.isEmpty_iff, not_or] at hnames
    dsimp only
    split
    · rename_i hskip
      exact .unguarded hnames.1 hnames.2 (by simpa [hedge] using hskip)
    · rename_i hskip
      simp only [Bool.or_eq_true, hedge, not_or, Bool.not_eq_true] at hskip
      split
      · rename_i hnone
        exact .harmless hnames.1 hnames.2 hskip.1 hnone
      · rename_i cycle hfound
        exact .refused hnames.1 hnames.2 hskip.1 hskip.2 hfound

theorem edge_connect_iff (g : Graph) (a b x y : String) :
    (g.connect a b).dependencies.Edge x y ↔ g.dependencies.Edge x y ∨ (x = a ∧ y = b) :=
  Table.edge_insert_iff g.dependencies a b x y

/-- Both tables hold the same edges, and no row of theirs is empty. -/
structure Mirrored (g : Graph) : Prop where
  dependencies : g.dependencies.Tight
  visibility : g.visibility.Tight
  sides : ∀ a b, g.visibility.Edge b a ↔ g.dependencies.Edge a b

variable {g : Graph} {a b : String}

theorem mirrored_empty (allowCycles : Bool) : (empty allowCycles).Mirrored where
  dependencies := by simp [empty, Table.Tight]
  visibility := by simp [empty, Table.Tight]
  sides a b := iff_of_false (Table.not_edge_nil b a) (Table.not_edge_nil a b)

theorem Mirrored.connect (hmirrored : g.Mirrored) (a b : String) : (g.connect a b).Mirrored where
  dependencies := hmirrored.dependencies.insert a b
  visibility := hmirrored.visibility.insert b a
  sides x y := by
    rw [edge_connect_iff]
    change (g.visibility.insert b a).Edge y x ↔ _
    rw [Table.edge_insert_iff, hmirrored.sides, and_comm]

/-- Taking back an edge that was new restores the graph as a whole. -/
theorem Mirrored.disconnect_connect (hmirrored : g.Mirrored) (hnew : ¬ g.dependencies.Edge a b) :
    (g.connect a b).disconnect a b = g := by
  have hback : ¬ g.visibility.Edge b a := fun h => hnew ((hmirrored.sides a b).mp h)
  have hdependencies := Table.erase_insert hmirrored.dependencies hnew
  have hvisibility := Table.erase_insert hmirrored.visibility hback
  simp only [Graph.disconnect, Graph.connect, hdependencies, hvisibility]

theorem Added.same_allowCycles {refusal : Option Refusal} {after : Graph}
    (hadded : Added g a b refusal after) : after.allowCycles = g.allowCycles := by
  cases hadded <;> rfl

theorem Added.same_findings {refusal : Option Refusal} {after : Graph}
    (hadded : Added g a b refusal after) : after.findings = g.findings := by
  cases hadded <;> rfl

theorem Added.eq_emptyName_iff {refusal : Option Refusal} {after : Graph}
    (hadded : Added g a b refusal after) :
    refusal = some .emptyName ↔ a = "" ∨ b = "" := by
  cases hadded with
  | emptyName hempty => exact iff_of_true rfl hempty
  | unguarded ha hb => exact iff_of_false (by simp) (not_or.mpr ⟨ha, hb⟩)
  | harmless ha hb => exact iff_of_false (by simp) (not_or.mpr ⟨ha, hb⟩)
  | refused ha hb => exact iff_of_false (by simp) (not_or.mpr ⟨ha, hb⟩)

theorem add_ne_emptyName (g : Graph) (ha : a ≠ "") (hb : b ≠ "") :
    (g.add a b).1 ≠ some .emptyName :=
  fun hrefused => ((added_add g a b).eq_emptyName_iff.mp hrefused).elim ha hb

/-- An insertion either connects the edge or leaves the graph exactly as it was. -/
theorem Added.connect_or_same {refusal : Option Refusal} {after : Graph}
    (hadded : Added g a b refusal after) (hmirrored : g.Mirrored) :
    (refusal = none ∧ after = g.connect a b) ∨ (refusal ≠ none ∧ after = g) := by
  cases hadded with
  | emptyName => exact .inr ⟨by simp, rfl⟩
  | unguarded => exact .inl ⟨rfl, rfl⟩
  | harmless => exact .inl ⟨rfl, rfl⟩
  | refused _ _ hnew => exact .inr ⟨by simp, hmirrored.disconnect_connect hnew⟩

/-- The walk from the depender of a new edge meets a cycle exactly if there was a way back. -/
theorem firstCycle?_connect_eq_none_iff (hacyclic : Acyclic g.dependencies.Edge) :
    Walk.firstCycle? (g.connect a b).dependencies a = none ↔
      ¬ ReflTransGen g.dependencies.Edge b a := by
  have hnew : (g.connect a b).dependencies.Edge a b :=
    (edge_connect_iff g a b a b).mpr (.inr ⟨rfl, rfl⟩)
  constructor
  · intro hnone hback
    have hpath : ReflTransGen (g.connect a b).dependencies.Edge b a :=
      ReflTransGen.mono (fun x y hedge => (edge_connect_iff g a b x y).mpr (.inl hedge)) _ _ hback
    exact Walk.no_loop_of_firstCycle?_eq_none hnone .refl (.head' hnew hpath)
  · intro hback
    have hstill : Acyclic (g.connect a b).dependencies.Edge :=
      (hacyclic.add_edge hback).mono fun x y hedge => (edge_connect_iff g a b x y).mp hedge
    refine Option.eq_none_iff_forall_ne_some.mpr fun cycle hfound => ?_
    exact (Walk.firstCycle?_simpleCycle hfound).not_acyclic hstill

/-- A graph that guards its insertions stays without cycles. -/
theorem Added.acyclic {refusal : Option Refusal} {after : Graph}
    (hadded : Added g a b refusal after) (hmirrored : g.Mirrored) (hguard : g.allowCycles = false)
    (hacyclic : Acyclic g.dependencies.Edge) : Acyclic after.dependencies.Edge := by
  cases hadded with
  | emptyName => exact hacyclic
  | unguarded _ _ hskip =>
    have hold : g.dependencies.Edge a b := hskip.resolve_right (by simp [hguard])
    refine hacyclic.mono fun x y hedge => ?_
    rcases (edge_connect_iff g a b x y).mp hedge with hedge | ⟨rfl, rfl⟩
    · exact hedge
    · exact hold
  | harmless _ _ _ hnone =>
    have hback := (firstCycle?_connect_eq_none_iff hacyclic).mp hnone
    exact (hacyclic.add_edge hback).mono fun x y => (edge_connect_iff g a b x y).mp
  | refused _ _ hnew => rwa [hmirrored.disconnect_connect hnew]

end Graph

end ImportCycles
