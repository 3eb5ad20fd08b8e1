import ImportCycles.Proofs.Walk.Outcome

open Relation (TransGen ReflTransGen)

namespace ImportCycles

namespace Walk

/-- How far the walk has come with the names below `unit`. It has been through those in front of
    `frame`, and the last of them may be the one that it has entered and not yet left. -/
def TriedTo (edges : Table) (finished : List String) (unit : String) (entered : Option String)
    (frame : List String) : Prop :=
  ∃ before, frameOf edges unit = before ++ (entered.toList ++ frame) ∧
    ∀ name ∈ before, name ∈ finished

/-- The frames of a path, newest first, each tried up to the unit that was entered from it. -/
inductive InOrder (edges : Table) (origin : String) (finished : List String) :
    Option String → List String → List (List String) → Prop where
  | start {entered : Option String} {frame : List String}
      (htried : TriedTo edges finished origin entered frame) :
      InOrder edges origin finished entered [] [frame]
  | above {entered : Option String} {unit : String} {path frame : List String}
      {frames : List (List String)} (htried : TriedTo edges finished unit entered frame)
      (hrest : InOrder edges origin finished (some unit) path frames) :
      InOrder edges origin finished entered (unit :: path) (frame :: frames)

/-- A walk that has met no cycle so far, from a start where no unit was known. -/
structure Searching (edges : Table) (origin : String) (s : State) : Prop where
  invariant : Invariant edges origin s
  cycles : s.cycles = []
  known : s.known = []
  inOrder : s.frames ≠ [] → InOrder edges origin s.finished none s.path s.frames

/-- A walk whose next name closes its first cycle. -/
structure Closes (edges : Table) (origin : String) (s : State) (unit : String) : Prop
    extends Searching edges origin s where
  next : ∃ rest outer, s.frames = (unit :: rest) :: outer
  mem_path : unit ∈ s.path

variable {edges : Table} {origin unit : String} {entered : Option String}
  {finished more path frame : List String} {frames outer : List (List String)} {s next : State}

theorem TriedTo.mono (htried : TriedTo edges finished unit entered frame)
    (hsub : ∀ name ∈ finished, name ∈ more) : TriedTo edges more unit entered frame := by
  obtain ⟨before, hframe, hbefore⟩ := htried
  exact ⟨before, hframe, fun name hname => hsub name (hbefore name hname)⟩

theorem triedTo_frameOf (edges : Table) (finished : List String) (unit : String) :
    TriedTo edges finished unit none (frameOf edges unit) :=
  ⟨[], rfl, by simp⟩

theorem TriedTo.enter {name : String} (htried : TriedTo edges finished unit none (name :: frame)) :
    TriedTo edges finished unit (some name) frame :=
  htried

/-- The name that was entered has been left, and is finished as those before it. -/
theorem TriedTo.leave {name : String} (htried : TriedTo edges finished unit (some name) frame)
    (hname : name ∈ finished) : TriedTo edges finished unit none frame := by
  obtain ⟨before, hframe, hbefore⟩ := htried
  refine ⟨before ++ [name], by simpa using hframe, ?_⟩
  simpa [or_imp, forall_and] using And.intro hbefore hname

/-- The names below a unit are tried from the least on, so those less than the one entered are
    finished. -/
theorem TriedTo.finished_of_lt {name other : String}
    (htried : TriedTo edges finished unit (some name) frame) (hedge : edges.Edge unit other)
    (hlt : other < name) : other ∈ finished := by
  obtain ⟨before, hframe, hbefore⟩ := htried
  have hsorted : (before ++ name :: frame).Pairwise (· ≤ ·) := by
    have hpairwise := sortNames_pairwise (edges.row unit)
    rwa [← frameOf, hframe] at hpairwise
  have hmem : other ∈ before ++ name :: frame := by
    have hother := mem_frameOf.mpr hedge
    rwa [hframe] at hother
  obtain ⟨hle, -⟩ := List.pairwise_cons.mp (List.pairwise_append.mp hsorted).2.1
  rcases List.mem_append.mp hmem with hold | hlater
  · exact hbefore other hold
  · rcases List.mem_cons.mp hlater with rfl | hlater
    · exact absurd hlt (String.lt_irrefl _)
    · exact absurd hlt (String.not_lt.mpr (hle other hlater))

theorem InOrder.mono (horder : InOrder edges origin finished entered path frames)
    (hsub : ∀ name ∈ finished, name ∈ more) : InOrder edges origin more entered path frames := by
  induction horder with
  | start htried => exact .start (htried.mono hsub)
  | above htried _ ih => exact .above (htried.mono hsub) ih

theorem InOrder.enter {name : String}
    (horder : InOrder edges origin finished none path ((name :: frame) :: outer)) :
    InOrder edges origin finished (some name) path (frame :: outer) := by
  cases horder with
  | start htried => exact .start htried.enter
  | above htried hrest => exact .above htried.enter hrest

theorem InOrder.leave {name : String}
    (horder : InOrder edges origin finished (some name) path frames) (hname : name ∈ finished) :
    InOrder edges origin finished none path frames := by
  cases horder with
  | start htried => exact .start (htried.leave hname)
  | above htried hrest => exact .above (htried.leave hname) hrest

/-- Below each unit of the path, and below the start, the names less than the next unit of the path
    are finished. -/
theorem InOrder.finished_of_lt (horder : InOrder edges origin finished entered path frames) :
    (entered.toList ++ path ++ [origin]).IsChain fun unit older =>
      ∀ name, edges.Edge older name → name < unit → name ∈ finished := by
  induction horder with
  | @start entered frame htried =>
    cases entered with
    | none => exact .singleton origin
    | some name => exact List.isChain_pair.mpr fun _ => htried.finished_of_lt
  | @above entered unit path frame frames htried _ ih =>
    cases entered with
    | none => exact ih
    | some name => exact List.isChain_cons_cons.mpr ⟨fun _ => htried.finished_of_lt, ih⟩

/-- Every unit of the path is within reach of the start. -/
theorem Aligned.reaches {done : String → Prop} (haligned : Aligned edges origin done path frames) :
    ∀ unit ∈ path, TransGen edges.Edge origin unit := by
  induction haligned with
  | start => simp
  | @above done unit path frame frames _ hedge _ ih =>
    refine List.forall_mem_cons.mpr ⟨?_, ih⟩
    cases path with
    | nil => exact .single hedge
    | cons older rest => exact (ih older List.mem_cons_self).tail hedge

theorem searching_start (edges : Table) (origin : String) :
    Searching edges origin (start edges [] origin) where
  invariant := invariant_start edges [] origin
  cycles := rfl
  known := rfl
  inOrder _ := .start (triedTo_frameOf edges _ origin)

theorem Searching.inOrder_cons (hsearch : Searching edges origin s)
    (hframes : s.frames = frame :: outer) :
    InOrder edges origin s.finished none s.path (frame :: outer) := by
  have horder := hsearch.inOrder (by simp [hframes])
  rwa [hframes] at horder

/-- A step either leaves the walk searching, or closes the first cycle. -/
theorem Searching.move (hsearch : Searching edges origin s) (hmove : Move true edges s next) :
    Searching edges origin next ∨
      ∃ unit, Closes edges origin s unit ∧ next.cycles = [closing unit s.path] := by
  have hnext := hsearch.invariant.move hmove
  have hcycles := hsearch.cycles
  have hknown := hsearch.known
  cases hmove with
  | leaveStart hpath hframes =>
    have horder := hsearch.inOrder_cons hframes
    rw [hpath] at horder
    cases horder with
    | start => exact .inl ⟨hnext, hcycles, hknown, fun hne => absurd rfl hne⟩
  | @retreat unit path outer hpath hframes =>
    have horder := hsearch.inOrder_cons hframes
    rw [hpath] at horder
    cases horder with
    | above _ hrest =>
      have hgrown : InOrder edges origin (unit :: s.finished) (some unit) path outer :=
        hrest.mono fun _ => List.mem_cons_of_mem unit
      exact .inl ⟨hnext, hcycles, hknown, fun _ => hgrown.leave List.mem_cons_self⟩
  | @pass unit rest outer hframes hold =>
    have hfinished : unit ∈ s.finished := by simpa [hknown] using hold.imp_right (·.2.2)
    have horder := (hsearch.inOrder_cons hframes).enter
    exact .inl ⟨hnext, hcycles, hknown, fun _ => horder.leave hfinished⟩
  | @close unit rest outer hframes _ hseen =>
    refine .inr ⟨unit, ⟨hsearch, ⟨rest, outer, hframes⟩, ?_⟩, by rw [hcycles, List.nil_append]⟩
    rwa [← hsearch.invariant.seen_eq]
  | @enter unit rest outer hframes _ _ _ =>
    have horder := (hsearch.inOrder_cons hframes).enter
    exact .inl ⟨hnext, hcycles, hknown, fun _ => .above (triedTo_frameOf edges _ unit) horder⟩

/-- A search for the first cycle goes on searching until it closes one, and stops there. -/
theorem Reaches.searching_or_closes (hreach : Reaches .firstCycle true edges s next)
    (hsearch : Searching edges origin s) :
    Searching edges origin next ∨
      ∃ before unit, Closes edges origin before unit ∧
        next.cycles = [closing unit before.path] := by
  induction hreach with
  | refl => exact .inl hsearch
  | @tail mid last _ hstep ih =>
    rcases ih with hsearching | ⟨before, unit, hcloses, hcycles⟩
    · refine (hsearching.move (move_of_step hstep)).imp_right fun ⟨unit, hcloses, hcycles⟩ => ?_
      exact ⟨mid, unit, hcloses, hcycles⟩
    · have hstopped : Stopped .firstCycle mid := ⟨rfl, by simp [hcycles]⟩
      rw [step_eq_none_iff.mpr (.inl hstopped)] at hstep
      cases hstep

/-- The cycle that a search answers with is the one that it closed last. -/
theorem exists_closes {cycle : List String} (hfound : firstCycle? edges origin = some cycle) :
    ∃ s unit, Closes edges origin s unit ∧ cycle = closing unit s.path := by
  have hreach := reaches_run .firstCycle true edges (bound edges) (start edges [] origin)
  rcases hreach.searching_or_closes (searching_start edges origin) with
    hsearch | ⟨s, unit, hcloses, hcycles⟩
  · change (run .firstCycle true edges (bound edges) _).cycles.head? = some cycle at hfound
    simp [hsearch.cycles] at hfound
  · refine ⟨s, unit, hcloses, ?_⟩
    change (run .firstCycle true edges (bound edges) _).cycles.head? = some cycle at hfound
    simpa [hcycles] using hfound.symm

theorem Closes.simpleCycle (hcloses : Closes edges origin s unit) :
    SimpleCycle edges (closing unit s.path) := by
  obtain ⟨rest, outer, hframes⟩ := hcloses.next
  exact hcloses.invariant.closing_simpleCycle hframes
    (hcloses.invariant.seen_eq ▸ hcloses.mem_path)

theorem Closes.frames_ne_nil (hcloses : Closes edges origin s unit) : s.frames ≠ [] := by
  obtain ⟨rest, outer, hframes⟩ := hcloses.next
  simp [hframes]

theorem Closes.reaches (hcloses : Closes edges origin s unit) :
    ∀ name ∈ s.path, TransGen edges.Edge origin name :=
  (hcloses.invariant.aligned hcloses.frames_ne_nil).reaches

end Walk

end ImportCycles
