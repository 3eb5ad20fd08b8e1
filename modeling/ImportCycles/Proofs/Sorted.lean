import Mathlib.Data.List.Perm.Basic
import Mathlib.Data.List.Pairwise
import ImportCycles.Sorted

namespace ImportCycles

theorem orderedInsert_perm {α : Type} (le : α → α → Bool) (x : α) (xs : List α) :
    (orderedInsert le x xs).Perm (x :: xs) := by
  induction xs with
  | nil => exact .refl _
  | cons y ys ih =>
    simp only [orderedInsert]
    split
    · exact .refl _
    · exact (ih.cons y).trans (.swap x y ys)

/-- Sorting moves elements and neither loses nor repeats any. -/
theorem insertionSort_perm {α : Type} (le : α → α → Bool) (xs : List α) :
    (insertionSort le xs).Perm xs := by
  induction xs with
  | nil => exact .refl _
  | cons x xs ih => exact (orderedInsert_perm le x _).trans (ih.cons x)

section Order

variable {α : Type} {le : α → α → Bool}

theorem orderedInsert_pairwise (htrans : ∀ a b c, le a b = true → le b c = true → le a c = true)
    (htotal : ∀ a b, le a b = true ∨ le b a = true) (x : α) {xs : List α}
    (hxs : xs.Pairwise fun a b => le a b = true) :
    (orderedInsert le x xs).Pairwise fun a b => le a b = true := by
  induction xs with
  | nil => exact List.pairwise_singleton _ x
  | cons y ys ih =>
    obtain ⟨hhead, htail⟩ := List.pairwise_cons.mp hxs
    simp only [orderedInsert]
    split
    · rename_i hxy
      refine List.pairwise_cons.mpr ⟨List.forall_mem_cons.mpr ⟨hxy, fun z hz => ?_⟩, hxs⟩
      exact htrans x y z hxy (hhead z hz)
    · rename_i hxy
      refine List.pairwise_cons.mpr ⟨fun z hz => ?_, ih htail⟩
      rcases List.mem_cons.mp ((orderedInsert_perm le x ys).mem_iff.mp hz) with rfl | hz
      · exact (htotal z y).resolve_left hxy
      · exact hhead z hz

theorem insertionSort_pairwise (htrans : ∀ a b c, le a b = true → le b c = true → le a c = true)
    (htotal : ∀ a b, le a b = true ∨ le b a = true) (xs : List α) :
    (insertionSort le xs).Pairwise fun a b => le a b = true := by
  induction xs with
  | nil => exact .nil
  | cons x xs ih => exact orderedInsert_pairwise htrans htotal x ih

end Order

section Stable

variable {α : Type} (key : α → String)

theorem orderedInsert_filter (k : String) (x : α) (ys : List α) :
    (orderedInsert (fun a b => decide (key a ≤ key b)) x ys).filter (key · = k) =
      (x :: ys).filter (key · = k) := by
  induction ys with
  | nil => rfl
  | cons y ys ih =>
    simp only [orderedInsert]
    split
    · rfl
    · rename_i hle
      have hlt : key y < key x := by simpa [String.not_le] using hle
      have hapart : ¬ (key x = k ∧ key y = k) := by
        rintro ⟨rfl, hy⟩
        exact String.lt_irrefl _ (hy ▸ hlt)
      rw [List.filter_cons, ih, List.filter_cons, List.filter_cons, List.filter_cons]
      by_cases hx : key x = k <;> by_cases hy : key y = k <;> simp_all

/-- Sorting is stable: the elements of one key stay in their order, since an element is put behind
    smaller ones only. -/
theorem insertionSort_filter (k : String) (xs : List α) :
    (insertionSort (fun a b => decide (key a ≤ key b)) xs).filter (key · = k) =
      xs.filter (key · = k) := by
  induction xs with
  | nil => rfl
  | cons x xs ih =>
    rw [insertionSort, orderedInsert_filter, List.filter_cons, ih, List.filter_cons]

private theorem decide_le_trans (a b c : α) (hab : decide (key a ≤ key b) = true)
    (hbc : decide (key b ≤ key c) = true) : decide (key a ≤ key c) = true :=
  decide_eq_true (String.le_trans (of_decide_eq_true hab) (of_decide_eq_true hbc))

private theorem decide_le_total (a b : α) :
    (decide (key a ≤ key b) || decide (key b ≤ key a)) = true := by
  simpa using String.le_total (key a) (key b)

theorem insertionSort_pairwise_key (xs : List α) :
    (insertionSort (fun a b => decide (key a ≤ key b)) xs).Pairwise fun a b => key a ≤ key b :=
  (insertionSort_pairwise (decide_le_trans key)
    (fun a b => by simpa using String.le_total (key a) (key b)) xs).imp of_decide_eq_true

theorem mergeSort_pairwise_key (xs : List α) :
    (xs.mergeSort fun a b => decide (key a ≤ key b)).Pairwise fun a b => key a ≤ key b :=
  (List.pairwise_mergeSort (decide_le_trans key) (decide_le_total key) xs).imp of_decide_eq_true

theorem mergeSort_filter (k : String) (xs : List α) :
    (xs.mergeSort fun a b => decide (key a ≤ key b)).filter (key · = k) =
      xs.filter (key · = k) := by
  have hsorted : (xs.filter (key · = k)).Pairwise fun a b => decide (key a ≤ key b) = true := by
    refine List.pairwise_of_forall_mem_list fun a ha b hb => ?_
    simp only [List.mem_filter, decide_eq_true_eq] at ha hb
    simp [ha.2, hb.2]
  have hsub := (List.sublist_mergeSort (decide_le_trans key) (decide_le_total key) hsorted
    List.filter_sublist).filter (key · = k)
  rw [List.filter_filter] at hsub
  simp only [Bool.and_self] at hsub
  refine (hsub.eq_of_length ?_).symm
  exact ((List.mergeSort_perm xs _).filter _).length_eq.symm

private theorem mem_iff_of_filter_eq {xs ys : List α}
    (hsame : ∀ k, xs.filter (key · = k) = ys.filter (key · = k)) (z : α) : z ∈ xs ↔ z ∈ ys := by
  have hz : z ∈ xs.filter (key · = key z) ↔ z ∈ ys.filter (key · = key z) := by rw [hsame]
  simpa using hz

/-- Lists in the order of a key agree if they agree on the elements of each key. -/
theorem eq_of_filter_eq {xs ys : List α} (hxs : xs.Pairwise fun a b => key a ≤ key b)
    (hys : ys.Pairwise fun a b => key a ≤ key b)
    (hsame : ∀ k, xs.filter (key · = k) = ys.filter (key · = k)) : xs = ys := by
  have hmem := mem_iff_of_filter_eq key hsame
  induction xs generalizing ys with
  | nil =>
    exact (List.eq_nil_iff_forall_not_mem.mpr fun z hz => by simpa using (hmem z).mpr hz).symm
  | cons x xs ih =>
    cases ys with
    | nil => simpa using (hmem x).mp (by simp)
    | cons y ys =>
      obtain ⟨hxhead, hxtail⟩ := List.pairwise_cons.mp hxs
      obtain ⟨hyhead, hytail⟩ := List.pairwise_cons.mp hys
      have hxy : key x ≤ key y := by
        rcases List.mem_cons.mp ((hmem y).mpr (by simp)) with rfl | hy
        · exact String.le_refl _
        · exact hxhead y hy
      have hyx : key y ≤ key x := by
        rcases List.mem_cons.mp ((hmem x).mp (by simp)) with rfl | hx
        · exact String.le_refl _
        · exact hyhead x hx
      have hkeys : key x = key y := String.le_antisymm hxy hyx
      have hfirst := hsame (key x)
      simp only [List.filter_cons, decide_true, if_true, hkeys] at hfirst
      obtain ⟨rfl, hrest⟩ := List.cons.inj hfirst
      have htails : ∀ k, xs.filter (key · = k) = ys.filter (key · = k) := by
        intro k
        by_cases hk : key x = k
        · exact hk ▸ hrest
        · simpa [List.filter_cons, hk] using hsame k
      exact congrArg (x :: ·) (ih hxtail hytail htails (mem_iff_of_filter_eq key htails))

end Stable

theorem sortNames_perm (names : List String) : (sortNames names).Perm names :=
  insertionSort_perm _ names

@[simp] theorem mem_sortNames {name : String} {names : List String} :
    name ∈ sortNames names ↔ name ∈ names :=
  (sortNames_perm names).mem_iff

theorem sortNames_pairwise (names : List String) : (sortNames names).Pairwise (· ≤ ·) :=
  insertionSort_pairwise_key id names

theorem lt_of_le_ne {a b : String} (hle : a ≤ b) (hne : a ≠ b) : a < b :=
  String.not_le.mp fun hback => hne (String.le_antisymm hle hback)

/-- Distinct names come out in strictly increasing order. -/
theorem sortNames_pairwise_lt {names : List String} (hnodup : names.Nodup) :
    (sortNames names).Pairwise (· < ·) :=
  (sortNames_pairwise names).imp₂ (fun _ _ => lt_of_le_ne)
    ((sortNames_perm names).nodup_iff.mpr hnodup)

theorem nodup_eraseDups {α : Type} [BEq α] [LawfulBEq α] (xs : List α) :
    xs.eraseDups.Nodup := by
  cases xs with
  | nil => exact .nil
  | cons x rest =>
    rw [List.eraseDups_cons, List.nodup_cons]
    refine ⟨fun hmem => ?_, nodup_eraseDups _⟩
    simpa using List.mem_eraseDups.mp hmem
termination_by xs.length
decreasing_by exact Nat.lt_succ_of_le (List.length_filter_le _ _)

@[simp] theorem mem_sortDistinct {name : String} {names : List String} :
    name ∈ sortDistinct names ↔ name ∈ names := by
  rw [sortDistinct, mem_sortNames, List.mem_eraseDups]

theorem sortDistinct_pairwise_lt (names : List String) :
    (sortDistinct names).Pairwise (· < ·) :=
  sortNames_pairwise_lt (nodup_eraseDups names)

@[simp] theorem length_sortNames (names : List String) : (sortNames names).length = names.length :=
  (sortNames_perm names).length_eq

/-- Sorting names forgets their order. -/
theorem sortNames_congr {names others : List String} (hperm : names.Perm others) :
    sortNames names = sortNames others :=
  List.Perm.eq_of_pairwise (fun _ _ _ _ => String.le_antisymm) (sortNames_pairwise names)
    (sortNames_pairwise others)
    (((sortNames_perm names).trans hperm).trans (sortNames_perm others).symm)

theorem eraseDups_perm {α : Type} [BEq α] [LawfulBEq α] {xs ys : List α}
    (hsame : ∀ x, x ∈ xs ↔ x ∈ ys) : xs.eraseDups.Perm ys.eraseDups := by
  refine (List.perm_ext_iff_of_nodup (nodup_eraseDups xs) (nodup_eraseDups ys)).mpr fun x => ?_
  rw [List.mem_eraseDups, List.mem_eraseDups, hsame]

/-- Sorted names tell which names there are and how often each. -/
theorem sortNames_eq_iff {names others : List String} :
    sortNames names = sortNames others ↔ names.Perm others := by
  refine ⟨fun heq => ?_, sortNames_congr⟩
  have hperm := sortNames_perm names
  rw [heq] at hperm
  exact hperm.symm.trans (sortNames_perm others)

/-- Sorted and listed once each, they tell only which there are. -/
theorem sortDistinct_eq_iff {names others : List String} :
    sortDistinct names = sortDistinct others ↔ ∀ name, name ∈ names ↔ name ∈ others := by
  refine ⟨fun heq name => ?_, fun hsame => sortNames_congr (eraseDups_perm hsame)⟩
  rw [← mem_sortDistinct, heq, mem_sortDistinct]

section Pairs

variable {pairs others : List (String × String)} {pair : String × String}

/-- The order of pairs, as the sort decides it. -/
def pairLe (a b : String × String) : Bool :=
  decide (a.1 < b.1) || (a.1 == b.1 && decide (a.2 ≤ b.2))

theorem pairLe_iff {a b : String × String} :
    pairLe a b = true ↔ a.1 < b.1 ∨ (a.1 = b.1 ∧ a.2 ≤ b.2) := by
  simp [pairLe]

theorem pairLe_trans (a b c : String × String) (hab : pairLe a b = true) (hbc : pairLe b c = true) :
    pairLe a c = true := by
  rw [pairLe_iff] at hab hbc ⊢
  rcases hab with hab | ⟨hab, hab'⟩
  · rcases hbc with hbc | ⟨hbc, -⟩
    · exact .inl (String.lt_trans hab hbc)
    · exact .inl (hbc ▸ hab)
  · rcases hbc with hbc | ⟨hbc, hbc'⟩
    · exact .inl (hab ▸ hbc)
    · exact .inr ⟨hab.trans hbc, String.le_trans hab' hbc'⟩

theorem pairLe_total (a b : String × String) : pairLe a b = true ∨ pairLe b a = true := by
  rw [pairLe_iff, pairLe_iff]
  by_cases heq : a.1 = b.1
  · rcases String.le_total a.2 b.2 with hle | hle
    · exact .inl (.inr ⟨heq, hle⟩)
    · exact .inr (.inr ⟨heq.symm, hle⟩)
  · rcases String.le_total a.1 b.1 with hle | hle
    · exact .inl (.inl (lt_of_le_ne hle heq))
    · exact .inr (.inl (lt_of_le_ne hle (Ne.symm heq)))

theorem pairLe_antisymm {a b : String × String} (hab : pairLe a b = true)
    (hba : pairLe b a = true) : a = b := by
  rw [pairLe_iff] at hab hba
  rcases hab with hab | ⟨heq, hab⟩
  · rcases hba with hba | ⟨heq, -⟩
    · exact absurd (String.lt_trans hab hba) (String.lt_irrefl _)
    · exact absurd (heq ▸ hab) (String.lt_irrefl _)
  · rcases hba with hba | ⟨-, hba⟩
    · exact absurd (heq ▸ hba) (String.lt_irrefl _)
    · exact Prod.ext heq (String.le_antisymm hab hba)

theorem sortPairs_perm (pairs : List (String × String)) : (sortPairs pairs).Perm pairs :=
  insertionSort_perm _ pairs

@[simp] theorem mem_sortPairs : pair ∈ sortPairs pairs ↔ pair ∈ pairs :=
  (sortPairs_perm pairs).mem_iff

theorem sortPairs_congr (hperm : pairs.Perm others) : sortPairs pairs = sortPairs others :=
  List.Perm.eq_of_pairwise (fun _ _ _ _ => pairLe_antisymm)
    (insertionSort_pairwise pairLe_trans pairLe_total pairs)
    (insertionSort_pairwise pairLe_trans pairLe_total others)
    (((sortPairs_perm pairs).trans hperm).trans (sortPairs_perm others).symm)

end Pairs

end ImportCycles
