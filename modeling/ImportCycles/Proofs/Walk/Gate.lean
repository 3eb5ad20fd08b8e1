import ImportCycles.Proofs.Audit.Findings
import ImportCycles.Proofs.Walk.Outcome

namespace ImportCycles

variable {edges : Table}

/-- Cycles with one key have the same units. -/
theorem SimpleCycle.mem_iff_of_key_eq {cycle other : List String}
    (hcycle : SimpleCycle edges cycle) (hother : SimpleCycle edges other)
    (hkey : Rotation.key cycle = Rotation.key other) (unit : String) :
    unit ∈ cycle ↔ unit ∈ other := by
  rw [← hcycle.mem_opened_iff, ← hother.mem_opened_iff]
  exact Rotation.mem_opened_of_key_eq hkey unit

namespace Walk

/-- What holds of the cycles claimed so far, by earlier walks and by this one. Each starts at a
    known unit. While this unit is on the path, no unit of its cycle is below it: the walk had
    entered the others after it. -/
structure Gated (edges : Table) (earlier : List (List String)) (s : State) : Prop where
  simple : ∀ cycle ∈ earlier ++ s.cycles, SimpleCycle edges cycle
  distinct : (earlier ++ s.cycles).Pairwise fun cycle other =>
    Rotation.key cycle ≠ Rotation.key other
  nodup : s.known.Nodup
  known : ∀ cycle ∈ earlier ++ s.cycles, ∀ unit, cycle.head? = some unit → unit ∈ s.known
  below : ∀ cycle ∈ earlier ++ s.cycles, ∀ unit, cycle.head? = some unit →
    ∀ newer older, s.path = newer ++ unit :: older → ∀ other ∈ cycle, other ∉ older

variable {origin : String} {earlier : List (List String)} {s next : State}

theorem gated_start {known : List String} (origin : String)
    (hsimple : ∀ cycle ∈ earlier, SimpleCycle edges cycle)
    (hdistinct : earlier.Pairwise fun cycle other => Rotation.key cycle ≠ Rotation.key other)
    (hnodup : known.Nodup)
    (hknown : ∀ cycle ∈ earlier, ∀ unit, cycle.head? = some unit → unit ∈ known) :
    Gated edges earlier (start edges known origin) where
  simple := by simpa [start] using hsimple
  distinct := by simpa [start] using hdistinct
  nodup := hnodup
  known := by simpa [start] using hknown
  below := by simp [start]

/-- A cycle that is just being closed is no rotation of a claimed one. The unit that closed the
    claimed cycle is known, so it is not the unit that closes this one; it lies above that unit on
    the path, which the claimed cycle therefore does not run through. -/
theorem Gated.key_ne_closing (hgated : Gated edges earlier s) (hinv : Invariant edges origin s)
    {unit : String} {rest : List String} {outer : List (List String)}
    (hframes : s.frames = (unit :: rest) :: outer) (hunknown : unit ∉ s.known)
    (hseen : unit ∈ s.seen) :
    ∀ cycle ∈ earlier ++ s.cycles, Rotation.key cycle ≠ Rotation.key (closing unit s.path) := by
  intro cycle hcycle hkey
  have hsimple := hgated.simple cycle hcycle
  have hunits := hsimple.mem_iff_of_key_eq (hinv.closing_simpleCycle hframes hseen) hkey
  obtain ⟨first, others, hfirst⟩ := hsimple.closed
  have hhead : cycle.head? = some first := by simp [hfirst]
  have hne : first ≠ unit := by
    rintro rfl
    exact hunknown (hgated.known cycle hcycle first hhead)
  obtain ⟨newer, older, hpath, hnotin⟩ := List.eq_append_cons_of_mem (hinv.seen_eq ▸ hseen)
  rw [hpath, closing_append hnotin] at hunits
  have hnewer : first ∈ newer := by simpa [hne] using (hunits first).mp (by simp [hfirst])
  have hunit : unit ∈ cycle := (hunits unit).mpr (by simp)
  obtain ⟨newest, between, rfl⟩ := List.append_of_mem hnewer
  have hbelow := hgated.below cycle hcycle first hhead newest (between ++ unit :: older)
    (by simp [hpath])
  exact hbelow unit hunit (by simp)

theorem Gated.close (hgated : Gated edges earlier s) (hinv : Invariant edges origin s)
    {unit : String} {rest : List String} {outer : List (List String)}
    (hframes : s.frames = (unit :: rest) :: outer) (hunknown : unit ∉ s.known)
    (hseen : unit ∈ s.seen) :
    Gated edges earlier
      { s with
        frames := rest :: outer
        known := unit :: s.known
        cycles := s.cycles ++ [closing unit s.path] } := by
  have hfresh := hgated.key_ne_closing hinv hframes hunknown hseen
  have hclosing := hinv.closing_simpleCycle hframes hseen
  have hcases : ∀ {cycle}, cycle ∈ earlier ++ (s.cycles ++ [closing unit s.path]) →
      cycle ∈ earlier ++ s.cycles ∨ cycle = closing unit s.path := by
    intro cycle hcycle
    simpa [or_assoc] using hcycle
  obtain ⟨hsimple, hdistinct, hnodup, hknown, hbelow⟩ := hgated
  refine ⟨?_, ?_, List.nodup_cons.mpr ⟨hunknown, hnodup⟩, ?_, ?_⟩
  · intro cycle hcycle
    rcases hcases hcycle with hold | rfl
    · exact hsimple cycle hold
    · exact hclosing
  · change (earlier ++ (s.cycles ++ [closing unit s.path])).Pairwise _
    rw [← List.append_assoc]
    exact List.pairwise_append.mpr ⟨hdistinct, List.pairwise_singleton _ _, by simpa using hfresh⟩
  · intro cycle hcycle first hhead
    rcases hcases hcycle with hold | rfl
    · exact List.mem_cons_of_mem _ (hknown cycle hold first hhead)
    · obtain rfl : unit = first := by simpa [closing] using hhead
      exact List.mem_cons_self
  · intro cycle hcycle first hhead newer older hpath other hother
    rcases hcases hcycle with hold | rfl
    · exact hbelow cycle hold first hhead newer older hpath other hother
    · obtain rfl : unit = first := by simpa [closing] using hhead
      have honce : (newer ++ unit :: older).Nodup := by
        rw [← hpath]
        exact (List.nodup_append.mp hinv.enteredOnce).1
      obtain ⟨hnotin, hnodup⟩ := List.nodup_cons.mp (List.nodup_middle.mp honce)
      rw [List.mem_append, not_or] at hnotin
      rw [hpath, closing_append hnotin.1] at hother
      obtain rfl | hnewer : other = unit ∨ other ∈ newer := by simpa [or_comm] using hother
      · exact hnotin.2
      · exact fun holder => (List.nodup_append.mp hnodup).2.2 other hnewer other holder rfl

theorem Gated.move (hgated : Gated edges earlier s) (hinv : Invariant edges origin s)
    (hmove : Move true edges s next) : Gated edges earlier next := by
  cases hmove with
  | leaveStart => exact { hgated with }
  | @retreat unit path outer hpath hframes =>
    refine { hgated with below := fun cycle hcycle first hhead newer older hsplit => ?_ }
    apply hgated.below cycle hcycle first hhead (unit :: newer) older
    exact hpath.trans (congrArg (unit :: ·) hsplit)
  | pass => exact { hgated with }
  | close hframes hunknown hseen => exact hgated.close hinv hframes hunknown hseen
  | @enter unit rest outer hframes hunknown hunseen hnew =>
    refine { hgated with below := fun cycle hcycle first hhead newer older hsplit => ?_ }
    cases newer with
    | nil =>
      obtain ⟨rfl, _⟩ := List.cons.inj hsplit
      exact absurd (hgated.known cycle hcycle unit hhead) hunknown
    | cons newest newer =>
      exact hgated.below cycle hcycle first hhead newer older (List.cons.inj hsplit).2

theorem Reaches.gated {mode : Mode} (hreach : Reaches mode true edges s next)
    (hinv : Invariant edges origin s) (hgated : Gated edges earlier s) :
    Gated edges earlier next := by
  induction hreach with
  | refl => exact hgated
  | tail hbefore hstep ih => exact ih.move (Reaches.invariant hbefore hinv) (move_of_step hstep)

end Walk

end ImportCycles
