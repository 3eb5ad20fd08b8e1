import Mathlib.Data.List.Rotate
import ImportCycles.Rotation

namespace ImportCycles

namespace Rotation

theorem opened_closed (first : String) (others : List String) :
    opened (first :: (others ++ [first])) = first :: others := by
  have hlength : 1 < (first :: (others ++ [first])).length := by simp
  have hlast : (first :: (others ++ [first])).getLast? = some first := by
    rw [← List.cons_append, List.getLast?_concat]
  have hdrop : (first :: (others ++ [first])).dropLast = first :: others := by
    rw [← List.cons_append, List.dropLast_concat]
  simp only [opened, hlength, decide_true, List.head?_cons, hlast, BEq.rfl, Bool.and_self,
    if_true, hdrop]

/-- A list of distinct names is taken for open, even if it is a single name. -/
theorem opened_of_nodup {units : List String} (hnodup : units.Nodup) : opened units = units := by
  match units with
  | [] => rfl
  | [unit] => rfl
  | first :: second :: more =>
    obtain ⟨hfirst, -⟩ := List.nodup_cons.mp hnodup
    have hlast : (first :: second :: more).getLast? ≠ some first := by
      rw [List.getLast?_cons_cons]
      exact fun hlast => hfirst (List.mem_of_getLast? hlast)
    rw [opened, if_neg]
    simpa using hlast.symm

/-- The two ways to write a ring of names: open, or closed by its first name. -/
inductive Writes (ring : List String) : List String → Prop where
  | opened : Writes ring ring
  | closed {first : String} (hfirst : ring.head? = some first) : Writes ring (ring ++ [first])

theorem Writes.opened_eq {ring units : List String} (hwrites : Writes ring units)
    (hnodup : ring.Nodup) : Rotation.opened units = ring := by
  cases hwrites with
  | opened => exact opened_of_nodup hnodup
  | closed hfirst =>
    obtain ⟨others, rfl⟩ := List.head?_eq_some_iff.mp hfirst
    exact opened_closed _ others

theorem least_cons (first next : String) (rest : List String) :
    least first (next :: rest) = least (if next < first then next else first) rest :=
  rfl

theorem least_mem (first : String) (others : List String) :
    least first others ∈ first :: others := by
  induction others generalizing first with
  | nil => simp [least]
  | cons next rest ih =>
    rw [least_cons]
    by_cases hlt : next < first
    · rw [if_pos hlt]
      exact .tail _ (ih next)
    · rw [if_neg hlt]
      rcases List.mem_cons.mp (ih first) with heq | hmem
      · simp [heq]
      · simp [hmem]

theorem least_le (first : String) (others : List String) :
    ∀ unit ∈ first :: others, least first others ≤ unit := by
  induction others generalizing first with
  | nil => simp [least]
  | cons next rest ih =>
    rw [least_cons]
    by_cases hlt : next < first
    · rw [if_pos hlt]
      obtain ⟨hnext, hrest⟩ := List.forall_mem_cons.mp (ih next)
      have hfirst : next ≤ first := String.not_lt.mp (String.lt_asymm hlt)
      simpa using ⟨String.le_trans hnext hfirst, hnext, hrest⟩
    · rw [if_neg hlt]
      obtain ⟨hfirst, hrest⟩ := List.forall_mem_cons.mp (ih first)
      simpa using ⟨hfirst, String.le_trans hfirst (String.not_lt.mp hlt), hrest⟩

/-- The least name depends only on which names there are. -/
theorem least_eq_least {first second : String} {others more : List String}
    (hsame : ∀ unit, unit ∈ first :: others ↔ unit ∈ second :: more) :
    least first others = least second more :=
  String.le_antisymm (least_le first others _ ((hsame _).mpr (least_mem second more)))
    (least_le second more _ ((hsame _).mp (least_mem first others)))

/-- The key of a cycle is a rotation of it that starts at its least name. -/
theorem key_spec {units : List String} {first : String} {others : List String}
    (hopened : opened units = first :: others) :
    (opened units).IsRotated (key units) ∧ (key units).head? = some (least first others) := by
  have hindex : (first :: others).idxOf (least first others) < (first :: others).length :=
    List.idxOf_lt_length_of_mem (least_mem first others)
  have hkey : key units =
      (first :: others).rotate ((first :: others).idxOf (least first others)) := by
    rw [List.rotate_eq_drop_append_take hindex.le]
    simp only [key, hopened]
  rw [hkey, hopened]
  refine ⟨⟨_, rfl⟩, ?_⟩
  rw [List.head?_rotate hindex, List.getElem?_eq_getElem hindex, List.getElem_idxOf hindex]

theorem isRotated_key (units : List String) : (opened units).IsRotated (key units) := by
  cases hopened : opened units with
  | nil => simp [key, hopened]
  | cons first others => exact hopened ▸ (key_spec hopened).1

theorem mem_opened_of_key_eq {xs ys : List String} (hkey : key xs = key ys) (unit : String) :
    unit ∈ opened xs ↔ unit ∈ opened ys := by
  rw [(isRotated_key xs).mem_iff, (isRotated_key ys).mem_iff, hkey]

/-- Two rotations of a list of distinct names agree once they start at the same name. -/
theorem eq_of_isRotated_of_head {xs ys : List String} (hrotated : xs.IsRotated ys)
    (hnodup : xs.Nodup) (hhead : xs.head? = ys.head?) : xs = ys := by
  cases xs with
  | nil => exact (List.isRotated_nil_iff'.mp hrotated)
  | cons first others =>
    obtain ⟨n, hn, rfl⟩ := List.isRotated_iff_mod.mp hrotated
    rcases hn.eq_or_lt with rfl | hlt
    · exact (List.rotate_length _).symm
    · rw [List.head?_rotate hlt, List.getElem?_eq_getElem hlt, List.head?_cons] at hhead
      have hget : (first :: others)[n] = (first :: others)[0] := (Option.some.inj hhead).symm
      have hzero : n = 0 := hnodup.getElem_inj_iff.mp hget
      rw [hzero, List.rotate_zero]

/-- The key tells cycles of distinct names apart exactly up to rotation. -/
theorem key_eq_key_iff {xs ys : List String} (hnodup : (opened xs).Nodup) :
    key xs = key ys ↔ (opened xs).IsRotated (opened ys) := by
  constructor
  · intro hkey
    exact (isRotated_key xs).trans (hkey ▸ (isRotated_key ys).symm)
  · intro hrotated
    have hkeys : (key xs).IsRotated (key ys) :=
      ((isRotated_key xs).symm.trans hrotated).trans (isRotated_key ys)
    refine eq_of_isRotated_of_head hkeys ((isRotated_key xs).nodup_iff.mp hnodup) ?_
    cases hxs : opened xs with
    | nil =>
      have hys : opened ys = [] := List.isRotated_nil_iff'.mp (hxs ▸ hrotated) |>.symm
      simp [key, hxs, hys]
    | cons first others =>
      cases hys : opened ys with
      | nil => simp [List.isRotated_nil_iff, hxs, hys] at hrotated
      | cons second more =>
        rw [(key_spec hxs).2, (key_spec hys).2]
        rw [hxs, hys] at hrotated
        rw [least_eq_least fun _ => hrotated.mem_iff]

/-- A key is its own key. -/
theorem key_key {units : List String} (hnodup : (opened units).Nodup) :
    key (key units) = key units := by
  have hkey : (key units).Nodup := (isRotated_key units).nodup_iff.mp hnodup
  rw [key_eq_key_iff ((opened_of_nodup hkey).symm ▸ hkey), opened_of_nodup hkey]
  exact (isRotated_key units).symm

variable {xs ys units others : List String}

/-- The key of a ring of distinct names, written open or closed, tells it from all rings but its
    rotations. It is that rotation of the ring which starts at the least name, and its own key. -/
theorem key_exact (hxs : Writes xs units) (hys : Writes ys others) (hdistinct : xs.Nodup)
    (hdistinctToo : ys.Nodup) (hne : xs ≠ []) :
    (key units = key others ↔ xs.IsRotated ys) ∧
    xs.IsRotated (key units) ∧
    (∃ first ∈ xs, (key units).head? = some first ∧ ∀ unit ∈ xs, first ≤ unit) ∧
    key (key units) = key units := by
  have hopened := hxs.opened_eq hdistinct
  have hnodup : (opened units).Nodup := hopened ▸ hdistinct
  refine ⟨?_, hopened ▸ isRotated_key units, ?_, key_key hnodup⟩
  · rw [key_eq_key_iff hnodup, hopened, hys.opened_eq hdistinctToo]
  · obtain ⟨start, rest, rfl⟩ := List.exists_cons_of_ne_nil hne
    exact ⟨least start rest, least_mem start rest, (key_spec hopened).2, least_le start rest⟩

/-- A ring written closed and a rotation of it written open; and a ring of one name. -/
theorem key_exact_turned :
    key ["b", "c", "a", "b"] = key ["c", "a", "b"] ∧ key ["b", "b"] ≠ key ["c", "a", "b"] := by
  have hclosed : Writes ["b", "c", "a"] ["b", "c", "a", "b"] := .closed rfl
  have hloop : Writes ["b"] ["b", "b"] := .closed rfl
  have hopen : Writes ["c", "a", "b"] ["c", "a", "b"] := .opened
  obtain ⟨hturned, -⟩ := key_exact hclosed hopen (by decide) (by decide) (by decide)
  obtain ⟨hother, -⟩ := key_exact hloop hopen (by decide) (by decide) (by decide)
  refine ⟨hturned.mpr ⟨1, rfl⟩, fun hkey => ?_⟩
  simpa using (hother.mp hkey).perm.length_eq

end Rotation

end ImportCycles
