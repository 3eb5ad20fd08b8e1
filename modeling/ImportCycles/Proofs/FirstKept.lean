import Mathlib.Data.List.Basic
import ImportCycles.FirstKept

namespace ImportCycles

namespace FirstKept

variable {α κ : Type} [DecidableEq κ] {key : α → κ}

theorem contains_iff {s : FirstKept key} {x : α} :
    s.contains x = true ↔ ∃ y ∈ s.items, key y = key x := by
  simp [contains, List.any_eq_true]

theorem add_of_contains {s : FirstKept key} {x : α} (hold : s.contains x = true) :
    s.add x = (false, s) := by
  simp [add, hold]

theorem add_of_not_contains {s : FirstKept key} {x : α} (hnew : s.contains x = false) :
    s.add x = (true, { items := s.items ++ [x] }) := by
  simp [add, hnew]

/-- Where every item is a class of its own, the set holds what was put into it. -/
theorem mem_insert_self_key {s : FirstKept fun y : κ => y} {x y : κ} :
    y ∈ (s.insert x).items ↔ y ∈ s.items ∨ y = x := by
  cases hx : s.contains x with
  | false => simp [insert, add_of_not_contains hx]
  | true =>
    obtain ⟨z, hz, rfl⟩ := contains_iff.mp hx
    simp only [insert, add_of_contains hx]
    exact ⟨.inl, fun h => h.elim id fun heq => heq ▸ hz⟩

/-- No two items of one class are kept. -/
def Distinct (s : FirstKept key) : Prop :=
  s.items.Pairwise fun x y => key x ≠ key y

theorem Distinct.add {s : FirstKept key} (hdistinct : s.Distinct) (x : α) :
    (s.add x).2.Distinct := by
  cases hx : s.contains x with
  | true => simpa [add_of_contains hx] using hdistinct
  | false =>
    rw [add_of_not_contains hx]
    refine List.pairwise_append.mpr ⟨hdistinct, List.pairwise_singleton _ _, ?_⟩
    intro y hy z hz heq
    obtain rfl := List.mem_singleton.mp hz
    have hcontains := contains_iff.mpr ⟨y, hy, heq⟩
    rw [hx] at hcontains
    cases hcontains

end FirstKept

end ImportCycles
