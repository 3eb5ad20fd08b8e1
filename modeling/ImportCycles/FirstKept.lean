namespace ImportCycles

/-- The items kept so far, in the order of their arrival: of all items with one key the first. -/
structure FirstKept {α κ : Type} (key : α → κ) where
  items : List α := []
  deriving Repr

namespace FirstKept

variable {α κ : Type} [DecidableEq κ] {key : α → κ}

def empty : FirstKept key := {}

/-- Whether an item of the class of `x` is kept. -/
def contains (s : FirstKept key) (x : α) : Bool :=
  s.items.any fun y => key y == key x

/-- Keep `x` unless its class has an item, and tell whether it was kept. -/
def add (s : FirstKept key) (x : α) : Bool × FirstKept key :=
  if s.contains x then (false, s) else (true, { items := s.items ++ [x] })

/-- The set after an addition, for callers that do not ask what happened. -/
def insert (s : FirstKept key) (x : α) : FirstKept key :=
  (s.add x).2

/-- The number of classes with an item. -/
def size (s : FirstKept key) : Nat :=
  s.items.length

end FirstKept

end ImportCycles
