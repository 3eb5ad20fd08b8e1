import Mathlib.Data.Finset.Dedup
import Mathlib.Data.Finset.Card
import ImportCycles.Proofs.FirstKept
import ImportCycles.Proofs.Rotation

namespace ImportCycles

namespace FirstKept

variable {α κ : Type} [DecidableEq κ] {key : α → κ} {s : FirstKept key} {x : α} {xs ys : List α}

/-- Add items one after another. What each addition tells comes first, then the set after all. -/
def addEach (s : FirstKept key) : List α → List Bool × FirstKept key
  | [] => ([], s)
  | x :: rest =>
    let (stored, next) := s.add x
    let (others, last) := addEach next rest
    (stored :: others, last)

theorem add_fst (s : FirstKept key) (x : α) : (s.add x).1 = !s.contains x := by
  cases hx : s.contains x with
  | true => rw [add_of_contains hx, Bool.not_true]
  | false => rw [add_of_not_contains hx, Bool.not_false]

/-- An accepted item comes behind the others, a refused one changes nothing. -/
theorem add_items (s : FirstKept key) (x : α) :
    (s.add x).2.items = if (s.add x).1 then s.items ++ [x] else s.items := by
  cases hx : s.contains x with
  | true => rw [add_of_contains hx, if_neg Bool.false_ne_true]
  | false => rw [add_of_not_contains hx, if_pos rfl]

theorem contains_add (s : FirstKept key) (x y : α) :
    (s.add x).2.contains y = true ↔ s.contains y = true ∨ key x = key y := by
  rw [contains_iff, contains_iff]
  cases hx : s.contains x with
  | true =>
    obtain ⟨z, hz, hkey⟩ := contains_iff.mp hx
    rw [add_of_contains hx]
    exact ⟨.inl, fun hy => hy.elim id fun heq => ⟨z, hz, hkey.trans heq⟩⟩
  | false =>
    rw [add_of_not_contains hx]
    simp only [List.mem_append, List.mem_singleton, or_and_right, exists_or, exists_eq_left]

theorem addEach_cons (s : FirstKept key) (x : α) (xs : List α) :
    s.addEach (x :: xs) =
      ((s.add x).1 :: ((s.add x).2.addEach xs).1, ((s.add x).2.addEach xs).2) := rfl

theorem addEach_append (s : FirstKept key) (xs ys : List α) :
    s.addEach (xs ++ ys) = ((s.addEach xs).1 ++ ((s.addEach xs).2.addEach ys).1,
      ((s.addEach xs).2.addEach ys).2) := by
  induction xs generalizing s with
  | nil => rfl
  | cons x rest ih => rw [List.cons_append, addEach_cons, ih, addEach_cons, List.cons_append]

@[simp] theorem length_addEach (s : FirstKept key) (xs : List α) :
    (s.addEach xs).1.length = xs.length := by
  induction xs generalizing s with
  | nil => rfl
  | cons x rest ih => rw [addEach_cons, List.length_cons, ih, List.length_cons]

theorem contains_addEach (s : FirstKept key) (xs : List α) (y : α) :
    (s.addEach xs).2.contains y = true ↔ s.contains y = true ∨ ∃ x ∈ xs, key x = key y := by
  induction xs generalizing s with
  | nil => simp [addEach]
  | cons x rest ih =>
    rw [addEach_cons, ih, contains_add, or_assoc]
    simp only [List.mem_cons, or_and_right, exists_or, exists_eq_left]

/-- The set holds what it held and the items whose addition was accepted, in their order. -/
theorem items_addEach (s : FirstKept key) (xs : List α) :
    (s.addEach xs).2.items =
      s.items ++ ((xs.zip (s.addEach xs).1).filter (·.2)).map (·.1) := by
  induction xs generalizing s with
  | nil => exact (List.append_nil _).symm
  | cons x rest ih =>
    rw [addEach_cons, ih, add_items, List.zip_cons_cons, List.filter_cons]
    dsimp only
    split
    · rw [List.append_assoc, List.singleton_append, List.map_cons]
    · rfl

theorem Distinct.addEach (hdistinct : s.Distinct) (xs : List α) : (s.addEach xs).2.Distinct := by
  induction xs generalizing s with
  | nil => exact hdistinct
  | cons x rest ih => exact ih (hdistinct.add x)

/-- What additions to an empty set tell, one after another. -/
def told (key : α → κ) (xs : List α) : List Bool :=
  ((empty : FirstKept key).addEach xs).1

/-- The set after additions to an empty one. -/
def kept (key : α → κ) (xs : List α) : FirstKept key :=
  ((empty : FirstKept key).addEach xs).2

/-- What additions to an empty set do: each tells whether it is the first of its class, and the set
    keeps the firsts in their order and knows the classes. -/
structure KeepsFirsts (xs : List α) (told : List Bool) (s : FirstKept key) : Prop where
  length_told : told.length = xs.length
  told_iff : ∀ before x after, xs = before ++ x :: after →
    (told[before.length]? = some true ↔ ∀ y ∈ before, key y ≠ key x)
  items_eq : s.items = ((xs.zip told).filter (·.2)).map (·.1)
  nodup_keys : (s.items.map key).Nodup
  contains_iff : ∀ x, s.contains x = true ↔ ∃ y ∈ xs, key y = key x
  size_eq : s.size = (xs.map key).toFinset.card

theorem contains_kept (xs : List α) (y : α) :
    (kept key xs).contains y = true ↔ ∃ x ∈ xs, key x = key y := by
  rw [kept, contains_addEach]
  exact or_iff_right (by simp [contains, empty])

/-- The additions before one decide what it tells. -/
theorem told_concat (before : List α) (x : α) (after : List α) :
    (told key (before ++ x :: after))[before.length]? = some true ↔
      ∀ y ∈ before, key y ≠ key x := by
  have hlength : ((empty : FirstKept key).addEach before).1.length ≤ before.length :=
    (length_addEach _ before).le
  have hold : (kept key before).contains x = true ↔ ∃ y ∈ before, key y = key x :=
    contains_kept before x
  rw [kept] at hold
  rw [told, addEach_append, addEach_cons, List.getElem?_append_right hlength, length_addEach,
    Nat.sub_self, List.getElem?_cons_zero, Option.some_inj, add_fst, Bool.not_eq_true',
    ← Bool.not_eq_true, hold]
  simp only [not_exists, not_and, ne_eq]

theorem items_kept (key : α → κ) (xs : List α) :
    (kept key xs).items = ((xs.zip (told key xs)).filter (·.2)).map (·.1) :=
  items_addEach _ xs

theorem mem_of_mem_kept (hx : x ∈ (kept key xs).items) : x ∈ xs := by
  rw [items_kept] at hx
  obtain ⟨pair, hpair, rfl⟩ := List.mem_map.mp hx
  exact (List.of_mem_zip (List.mem_of_mem_filter hpair)).1

theorem exists_kept (hx : x ∈ xs) : ∃ y ∈ (kept key xs).items, key y = key x :=
  contains_iff.mp ((contains_kept xs x).mpr ⟨x, hx, rfl⟩)

theorem nodup_keys_kept (key : α → κ) (xs : List α) : ((kept key xs).items.map key).Nodup := by
  have hempty : (empty : FirstKept key).Distinct := List.Pairwise.nil
  exact List.pairwise_map.mpr (hempty.addEach xs)

theorem mem_keys_kept {k : κ} : k ∈ (kept key xs).items.map key ↔ k ∈ xs.map key := by
  rw [List.mem_map, List.mem_map]
  constructor
  · rintro ⟨y, hy, rfl⟩
    exact ⟨y, mem_of_mem_kept hy, rfl⟩
  · rintro ⟨x, hx, rfl⟩
    exact exists_kept hx

theorem size_kept (key : α → κ) (xs : List α) :
    (kept key xs).size = (xs.map key).toFinset.card := by
  have hsame : ((kept key xs).items.map key).toFinset = (xs.map key).toFinset := by
    ext k
    rw [List.mem_toFinset, List.mem_toFinset, mem_keys_kept]
  rw [← hsame, List.toFinset_card_of_nodup (nodup_keys_kept key xs), List.length_map, size]

/-- The number of classes does not depend on the order of the additions. -/
theorem size_kept_congr (hsame : xs.Perm ys) : (kept key xs).size = (kept key ys).size := by
  rw [size_kept, size_kept, List.toFinset_eq_of_perm _ _ (hsame.map key)]

theorem keepsFirsts (key : α → κ) (xs : List α) :
    KeepsFirsts xs (told key xs) (kept key xs) where
  length_told := length_addEach _ xs
  told_iff before x after hxs := hxs ▸ told_concat before x after
  items_eq := items_kept key xs
  nodup_keys := nodup_keys_kept key xs
  contains_iff := contains_kept xs
  size_eq := size_kept key xs

end FirstKept

namespace Rotation

variable {units others : List String}

/-- A ring of distinct names, written open or closed. -/
def IsRing (units : List String) : Prop :=
  ∃ ring, Writes ring units ∧ ring.Nodup

/-- Two lists that write the same ring of distinct names, each from a start of its own. -/
def SameRing (units others : List String) : Prop :=
  ∃ ring turned, Writes ring units ∧ Writes turned others ∧ ring.Nodup ∧ ring.IsRotated turned

theorem SameRing.isRing (hsame : SameRing units others) : IsRing others := by
  obtain ⟨ring, turned, -, hothers, hnodup, hrotated⟩ := hsame
  exact ⟨turned, hothers, hrotated.nodup_iff.mp hnodup⟩

theorem SameRing.key_eq (hsame : SameRing units others) : key units = key others := by
  obtain ⟨ring, turned, hunits, hothers, hnodup, hrotated⟩ := hsame
  have hring := hunits.opened_eq hnodup
  rw [key_eq_key_iff (hring ▸ hnodup), hring, hothers.opened_eq (hrotated.nodup_iff.mp hnodup)]
  exact hrotated

theorem IsRing.key_eq_iff (hunits : IsRing units) (hothers : IsRing others) :
    key units = key others ↔ SameRing units others := by
  refine ⟨fun hkey => ?_, SameRing.key_eq⟩
  obtain ⟨ring, hring, hnodup⟩ := hunits
  obtain ⟨turned, hturned, hdistinct⟩ := hothers
  refine ⟨ring, turned, hring, hturned, hnodup, ?_⟩
  have hopened := hring.opened_eq hnodup
  rwa [key_eq_key_iff (hopened ▸ hnodup), hopened, hturned.opened_eq hdistinct] at hkey

end Rotation

namespace FirstKept

open Rotation (IsRing SameRing)

variable {α κ : Type} [DecidableEq κ] {rings turns : List (List String)}

/-- Every ring that is added is written by one of those kept. -/
theorem exists_kept_ring_iff (hrings : ∀ units ∈ rings, IsRing units) (units : List String) :
    (∃ first ∈ (kept Rotation.key rings).items, SameRing first units) ↔
      ∃ added ∈ rings, SameRing added units := by
  constructor
  · rintro ⟨first, hfirst, hsame⟩
    exact ⟨first, mem_of_mem_kept hfirst, hsame⟩
  · rintro ⟨added, hadded, hsame⟩
    obtain ⟨first, hfirst, hkey⟩ : ∃ first ∈ (kept Rotation.key rings).items,
        Rotation.key first = Rotation.key added := exists_kept hadded
    have hring := hrings first (mem_of_mem_kept hfirst)
    exact ⟨first, hfirst, (hring.key_eq_iff hsame.isRing).mp (hkey.trans hsame.key_eq)⟩

/-- The first item of each class is kept and no other. An addition tells whether it was kept, the
    items are those kept, in their order, and the set knows and counts the classes. Where the items
    are rings of distinct names, written open or closed, the classes are the rings: the first to
    write a ring is kept, and in whatever order rings are added the same rings are kept, each
    once. -/
theorem first_of_each_class (key : α → κ) (xs : List α)
    (hrings : ∀ units ∈ rings, IsRing units) (hturns : turns.Perm rings) :
    KeepsFirsts xs (told key xs) (kept key xs) ∧
    (∀ before units after, rings = before ++ units :: after →
      ((told Rotation.key rings)[before.length]? = some true ↔
        ∀ earlier ∈ before, ¬ SameRing earlier units)) ∧
    (∀ units, (∃ first ∈ (kept Rotation.key turns).items, SameRing first units) ↔
      ∃ added ∈ rings, SameRing added units) ∧
    (kept Rotation.key turns).items.Pairwise (fun first other => ¬ SameRing first other) ∧
    (kept Rotation.key turns).size = (kept Rotation.key rings).size := by
  refine ⟨keepsFirsts key xs, ?_, fun units => ?_, ?_, size_kept_congr hturns⟩
  · rintro before units after rfl
    have hunits := hrings units (by simp)
    rw [told_concat]
    refine forall₂_congr fun earlier hearlier => ?_
    have hring := hrings earlier (List.mem_append_left _ hearlier)
    exact not_congr (hring.key_eq_iff hunits)
  · rw [exists_kept_ring_iff fun units hunits => hrings units (hturns.mem_iff.mp hunits)]
    simp only [hturns.mem_iff]
  · have hdistinct := List.pairwise_map.mp (nodup_keys_kept Rotation.key turns)
    exact hdistinct.imp fun hne hsame => hne hsame.key_eq

/-- A ring written closed, a ring of one name, and the first ring again, turned and open. -/
def addedRings : List (List String) :=
  [["b", "a", "b"], ["c", "c"], ["a", "b"]]

theorem first_of_each_class_addedRings :
    (∀ units ∈ addedRings, IsRing units) ∧ addedRings.reverse.Perm addedRings ∧
      (told String.length ["a", "bc", "d"])[1]? = some true ∧
      (told Rotation.key addedRings)[2]? ≠ some true ∧
      (kept Rotation.key addedRings.reverse).size = 2 := by
  have hclosed : Rotation.Writes ["b", "a"] ["b", "a", "b"] := .closed rfl
  have hloop : Rotation.Writes ["c"] ["c", "c"] := .closed rfl
  have hopen : Rotation.Writes ["a", "b"] ["a", "b"] := .opened
  have hrings : ∀ units ∈ addedRings, IsRing units := by
    simp only [addedRings, List.forall_mem_cons, List.not_mem_nil, false_imp_iff, implies_true,
      and_true]
    exact ⟨⟨_, hclosed, by decide⟩, ⟨_, hloop, by decide⟩, ⟨_, hopen, by decide⟩⟩
  have hreversed := List.reverse_perm addedRings
  obtain ⟨hfirsts, htold, -, -, hsize⟩ :=
    first_of_each_class String.length ["a", "bc", "d"] hrings hreversed
  refine ⟨hrings, hreversed, ?_, ?_, hsize.trans rfl⟩
  · exact (hfirsts.told_iff ["a"] "bc" ["d"] rfl).mpr (by decide)
  · intro hfirst
    have hnone := (htold [["b", "a", "b"], ["c", "c"]] ["a", "b"] [] rfl).mp hfirst
    exact hnone _ (.head _) ⟨_, _, hclosed, hopen, by decide, 1, rfl⟩

end FirstKept

end ImportCycles
