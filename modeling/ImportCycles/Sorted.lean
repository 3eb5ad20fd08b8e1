namespace ImportCycles

/-- Put `x` in front of the first element that is not below it. -/
def orderedInsert {α : Type} (le : α → α → Bool) (x : α) : List α → List α
  | [] => [x]
  | y :: ys => if le x y then x :: y :: ys else y :: orderedInsert le x ys

/-- The elements of a list in the order `le`; equal elements keep their order. The recursion is on
    the list itself, so a sorted list can be computed inside a proof. -/
def insertionSort {α : Type} (le : α → α → Bool) : List α → List α
  | [] => []
  | x :: xs => orderedInsert le x (insertionSort le xs)

/-- Names in code point order. -/
def sortNames (names : List String) : List String :=
  insertionSort (fun a b => decide (a ≤ b)) names

/-- Pairs of names in code point order of the first name, then of the second. -/
def sortPairs (pairs : List (String × String)) : List (String × String) :=
  insertionSort (fun a b => decide (a.1 < b.1) || (a.1 == b.1 && decide (a.2 ≤ b.2))) pairs

/-- Names in code point order, each once. -/
def sortDistinct (names : List String) : List String :=
  sortNames names.eraseDups

end ImportCycles
