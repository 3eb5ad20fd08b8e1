import ImportCycles.Proofs.Walk.Bound

open Relation (TransGen ReflTransGen)

namespace ImportCycles

namespace Walk

/-- What a walk has reported so far: simple cycles, whose first units became known one by one. -/
structure Reported (edges : Table) (known : List String) (s : State) : Prop where
  simple : ∀ cycle ∈ s.cycles, SimpleCycle edges cycle
  known_eq : s.known = (s.cycles.filterMap List.head?).reverse ++ known

variable {mode : Mode} {edges : Table} {origin : String} {known : List String} {s next : State}

theorem Reported.move (hreported : Reported edges known s) (hinv : Invariant edges origin s)
    (hmove : Move true edges s next) : Reported edges known next := by
  obtain ⟨hsimple, hknown⟩ := hreported
  rcases hinv.report hmove with ⟨hsame, hcycles⟩ | ⟨unit, cycle, hlearnt, hcycles, hhead, hcycle⟩
  · exact ⟨hcycles ▸ hsimple, by rw [hsame, hcycles, hknown]⟩
  · constructor
    · intro other hother
      rw [hcycles, List.mem_append, List.mem_singleton] at hother
      rcases hother with hother | rfl
      · exact hsimple other hother
      · exact hcycle
    · simp [hlearnt, hcycles, hknown, hhead]

theorem Reaches.invariant (hreach : Reaches mode true edges s next)
    (hinv : Invariant edges origin s) : Invariant edges origin next := by
  induction hreach with
  | refl => exact hinv
  | tail _ hstep ih => exact ih.move (move_of_step hstep)

theorem Reaches.reported (hreach : Reaches mode true edges s next)
    (hinv : Invariant edges origin s) (hreported : Reported edges known s) :
    Reported edges known next := by
  induction hreach with
  | refl => exact hreported
  | tail hbefore hstep ih => exact ih.move (Reaches.invariant hbefore hinv) (move_of_step hstep)

/-- A whole walk keeps the invariant, and reports simple cycles only. -/
theorem explore_spec (mode : Mode) (edges : Table) (known : List String) (origin : String) :
    Invariant edges origin (explore mode edges known origin) ∧
      Reported edges known (explore mode edges known origin) := by
  have hreach := reaches_run mode true edges (bound edges) (start edges known origin)
  have hstart := invariant_start edges known origin
  exact ⟨hreach.invariant hstart, hreach.reported hstart ⟨by simp [start], by simp [start]⟩⟩

/-- Once a walk has used up its frames, no cycle of unknown units is left within its reach. -/
theorem Invariant.no_loop (hinv : Invariant edges origin s) (hframes : s.frames = [])
    {unit : String} (hreach : TransGen (OpenEdge edges s.known) origin unit) :
    ¬ TransGen (OpenEdge edges s.known) unit unit := by
  obtain ⟨hpath, hcovered⟩ := hinv.ended hframes
  have hnodup : s.finished.Nodup := by simpa [hpath] using hinv.enteredOnce
  obtain ⟨first, ⟨hedge, hunknown⟩, hrest⟩ := TransGen.head'_iff.mp hreach
  have hfirst : first ∈ s.finished := by
    rcases hcovered.others first hedge with hnil | hknown | hfinished
    · cases hnil
    · exact absurd hknown hunknown
    · exact hfinished
  exact hinv.settled.no_loop hnodup (hinv.settled.closed hfirst hrest)

/-- A walk that has met no cycle: it has learnt nothing, and no unit on its path was known. -/
structure Quiet (known : List String) (s : State) : Prop where
  cycles : s.cycles = []
  known_eq : s.known = known
  unknown : ∀ unit ∈ s.path, unit ∉ known

/-- A walk stays quiet in a graph whose cycles all pass through known units: it enters unknown units
    only, so a cycle that it closed would keep clear of the known ones. -/
theorem Quiet.move (hquiet : Quiet known s) (hinv : Invariant edges origin s)
    (hacyclic : Acyclic fun a b => edges.Edge a b ∧ a ∉ known ∧ b ∉ known)
    (hmove : Move true edges s next) : Quiet known next := by
  obtain ⟨hcycles, rfl, hpath⟩ := hquiet
  cases hmove with
  | leaveStart => exact ⟨hcycles, rfl, hpath⟩
  | retreat hbefore =>
    exact ⟨hcycles, rfl, fun unit hunit => hpath unit (by simp [hbefore, hunit])⟩
  | pass => exact ⟨hcycles, rfl, hpath⟩
  | close hframes hunknown hseen =>
    obtain ⟨name, hname, hknown⟩ :=
      (hinv.closing_simpleCycle hframes hseen).toCircuit.exists_mem hacyclic
    rcases mem_closing hname with rfl | hname
    · exact absurd hknown hunknown
    · exact absurd hknown (hpath name hname)
  | enter _ hunknown => exact ⟨hcycles, rfl, List.forall_mem_cons.mpr ⟨hunknown, hpath⟩⟩

theorem firstCycle?_simpleCycle {cycle : List String}
    (hfound : firstCycle? edges origin = some cycle) : SimpleCycle edges cycle :=
  (explore_spec .firstCycle edges [] origin).2.simple cycle (List.mem_of_head? hfound)

/-- A walk that reports nothing leaves no cycle within reach of its start. -/
theorem no_loop_of_firstCycle?_eq_none (hnone : firstCycle? edges origin = none) {unit : String}
    (hreach : ReflTransGen edges.Edge origin unit) : ¬ TransGen edges.Edge unit unit := by
  obtain ⟨hinv, hreported⟩ := explore_spec .firstCycle edges [] origin
  have hcycles : (explore .firstCycle edges [] origin).cycles = [] :=
    List.head?_eq_none_iff.mp hnone
  have hknown : (explore .firstCycle edges [] origin).known = [] := by
    simpa [hcycles] using hreported.known_eq
  have hframes : (explore .firstCycle edges [] origin).frames = [] := by
    refine (step_eq_none_iff.mp (explore_halts .firstCycle edges [] origin)).resolve_left ?_
    exact fun hstopped => hstopped.2 hcycles
  intro hloop
  have hno : TransGen (OpenEdge edges _) origin unit → ¬ TransGen (OpenEdge edges _) unit unit :=
    hinv.no_loop hframes
  rw [hknown, openEdge_nil] at hno
  exact hno (hloop.trans_right hreach) hloop

end Walk

end ImportCycles
