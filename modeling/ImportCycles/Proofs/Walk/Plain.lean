import ImportCycles.Graph.Audit
import ImportCycles.Proofs.Walk.Outcome

open Relation (ReflTransGen)

namespace ImportCycles

namespace Walk

variable {mode : Mode} {edges : Table} {origin : String} {s next : State}

/-- The plain walk, which does not look at the finished units, gets over `name` without leaving a
    trace: it may walk below `name`, but reports nothing there and comes back. -/
def Passable (mode : Mode) (edges : Table) (known seen : List String)
    (cycles : List (List String)) (name : String) : Prop :=
  ∀ s : State, s.known = known → s.seen = seen → s.cycles = cycles →
    ∀ rest outer, s.frames = (name :: rest) :: outer →
      ∃ finished, Reaches mode false edges s { s with frames := rest :: outer, finished }

theorem passable_of_mem_known {known seen : List String} {cycles : List (List String)}
    (hgoing : ¬ (mode = .firstCycle ∧ cycles ≠ [])) {name : String} (hname : name ∈ known) :
    Passable mode edges known seen cycles name := by
  rintro s rfl rfl rfl rest outer hframes
  exact ⟨s.finished, .of_move hgoing (.pass hframes (.inl hname))⟩

/-- A frame of passable names is used up without a trace. -/
theorem reaches_empty_frame {known seen : List String} {cycles : List (List String)}
    {names : List String} (hpassable : ∀ name ∈ names, Passable mode edges known seen cycles name)
    (s : State) (hknown : s.known = known) (hseen : s.seen = seen) (hcycles : s.cycles = cycles)
    (outer : List (List String)) (hframes : s.frames = names :: outer) :
    ∃ finished, Reaches mode false edges s { s with frames := [] :: outer, finished } := by
  induction names generalizing s with
  | nil =>
    refine ⟨s.finished, ?_⟩
    rw [← hframes]
    exact .refl
  | cons name rest ih =>
    obtain ⟨hname, hrest⟩ := List.forall_mem_cons.mp hpassable
    obtain ⟨between, hfirst⟩ := hname s hknown hseen hcycles rest outer hframes
    obtain ⟨finished, hlater⟩ :=
      ih hrest { s with frames := rest :: outer, finished := between } hknown hseen hcycles rfl
    exact ⟨finished, ReflTransGen.trans hfirst hlater⟩

/-- Walking a second time into a unit that is settled changes nothing. The induction is on the
    order in which units were finished, since a settled unit leads only to older ones. -/
theorem passable_of_settled {known : List String} {cycles : List (List String)}
    (hgoing : ¬ (mode = .firstCycle ∧ cycles ≠ [])) {finished : List String}
    (hsettled : Settled edges known finished) (hnodup : finished.Nodup) {seen : List String}
    (hapart : ∀ name ∈ finished, name ∉ seen) {name : String} (hname : name ∈ finished) :
    Passable mode edges known seen cycles name := by
  induction finished generalizing seen name with
  | nil => cases hname
  | cons unit older ih =>
    obtain ⟨hnotin, holderNodup⟩ := List.nodup_cons.mp hnodup
    obtain ⟨hbelow, holderSettled⟩ := hsettled
    obtain ⟨hunseen, holderApart⟩ := List.forall_mem_cons.mp hapart
    rcases List.mem_cons.mp hname with rfl | hname
    · by_cases hknown : name ∈ known
      · exact passable_of_mem_known hgoing hknown
      · rintro s rfl rfl rfl rest outer hframes
        let entered : State :=
          { s with
            path := name :: s.path
            seen := name :: s.seen
            frames := frameOf edges name :: rest :: outer }
        have henter : Reaches mode false edges s entered :=
          .of_move hgoing (.enter hframes hknown hunseen (by simp))
        -- the names below are older, so none of them is on the longer path
        have hnames : ∀ below ∈ frameOf edges name,
            Passable mode edges s.known (name :: s.seen) s.cycles below := by
          intro below hmem
          rcases hbelow below (mem_frameOf.mp hmem) with hlearnt | holder
          · exact passable_of_mem_known hgoing hlearnt
          · refine ih holderSettled holderNodup (fun other hother => ?_) holder
            rw [List.mem_cons, not_or]
            exact ⟨fun h => hnotin (h ▸ hother), holderApart other hother⟩
        obtain ⟨between, hdrain⟩ := reaches_empty_frame hnames entered rfl rfl rfl _ rfl
        let drained : State := { entered with frames := [] :: rest :: outer, finished := between }
        have hretreat : Reaches mode false edges drained
            { s with frames := rest :: outer, finished := name :: between } := by
          have hmove : Move false edges drained _ := .retreat rfl rfl
          have hback : Reaches mode false edges drained _ := .of_move hgoing hmove
          simpa only [drained, entered, List.erase_cons_head] using hback
        exact ⟨name :: between, ReflTransGen.trans (ReflTransGen.trans henter hdrain) hretreat⟩
    · exact ih holderSettled holderNodup holderApart hname

/-- The plain walk follows each step of the pruned walk, and differs from it only in the units it
    counts as finished. -/
theorem Invariant.plain_follows (hinv : Invariant edges origin s)
    (hstep : step mode true edges s = some next) (finished : List String) :
    ∃ later, Reaches mode false edges { s with finished } { next with finished := later } := by
  have hgoing : ¬ Stopped mode s := by
    intro hstopped
    simp [step_eq_none_iff.mpr (.inl hstopped)] at hstep
  cases move_of_step hstep with
  | leaveStart hpath hframes =>
    exact ⟨finished, .of_move hgoing (.leaveStart (s := { s with finished }) hpath hframes)⟩
  | @retreat unit path outer hpath hframes =>
    exact ⟨unit :: finished, .of_move hgoing (.retreat (s := { s with finished }) hpath hframes)⟩
  | pass hframes hold =>
    rcases hold with hknown | ⟨hunseen, _, hfinished⟩
    · exact ⟨finished, .of_move hgoing (.pass (s := { s with finished }) hframes (.inl hknown))⟩
    · have hsplit := List.nodup_append.mp hinv.enteredOnce
      have hapart : ∀ name ∈ s.finished, name ∉ s.seen := by
        intro name hname hseen
        exact hsplit.2.2 name (hinv.seen_eq ▸ hseen) name hname rfl
      exact passable_of_settled hgoing hinv.settled hsplit.2.1 hapart hfinished
        { s with finished } rfl rfl rfl _ _ hframes
  | close hframes hunknown hseen =>
    exact ⟨finished,
      .of_move hgoing (.close (s := { s with finished }) hframes hunknown hseen)⟩
  | enter hframes hunknown hunseen _ =>
    exact ⟨finished,
      .of_move hgoing (.enter (s := { s with finished }) hframes hunknown hunseen (by simp))⟩

theorem Reaches.plain_follows (hreach : Reaches mode true edges s next)
    (hinv : Invariant edges origin s) (finished : List String) :
    ∃ later, Reaches mode false edges { s with finished } { next with finished := later } := by
  induction hreach with
  | refl => exact ⟨finished, .refl⟩
  | tail hbefore hstep ih =>
    obtain ⟨later, hfirst⟩ := ih
    obtain ⟨last, hlast⟩ := (Reaches.invariant hbefore hinv).plain_follows hstep later
    exact ⟨last, ReflTransGen.trans hfirst hlast⟩

/-- The plain walk comes to an end, and does so in the state `ended`. -/
def PlainEnds (mode : Mode) (edges : Table) (known : List String) (origin : String)
    (ended : State) : Prop :=
  step mode false edges ended = none ∧
    ∃ n, ∀ m ≥ n, run mode false edges m (start edges known origin) = ended

/-- The plain walk ends where the pruned walk ends, however much longer it takes. -/
theorem plainEnds_explore (mode : Mode) (edges : Table) (known : List String) (origin : String) :
    ∃ finished, PlainEnds mode edges known origin
      { explore mode edges known origin with finished } := by
  obtain ⟨finished, hreach⟩ := (reaches_run mode true edges (bound edges) _).plain_follows
    (invariant_start edges known origin) []
  have hended := step_eq_none_iff.mp (explore_halts mode edges known origin)
  have hhalted : step mode false edges { explore mode edges known origin with finished } = none :=
    step_eq_none_iff.mpr hended
  exact ⟨finished, hhalted, hreach.exists_run hhalted⟩

end Walk

namespace Graph

open Walk

/-- Passing over finished units does not change which cycles are found, in any graph and from any
    start. A search for the first cycle gives the same answer without it, and an audit reports the
    same cycles in the same order, so that it leaves the same findings. -/
theorem pruning_unobservable (g : Graph) (origin : String) :
    (∃ ended, PlainEnds .firstCycle g.dependencies [] origin ended ∧
      ended.cycles.head? = firstCycle? g.dependencies origin ∧
      ended.cycles.head?.map Route.join = g.findCycle origin) ∧
    (∃ ended, PlainEnds .everyCycle g.dependencies g.findings.knownCyclers.items origin ended ∧
      ended.cycles = cyclesFrom g.dependencies g.findings.knownCyclers.items origin ∧
      ended.known =
        (explore .everyCycle g.dependencies g.findings.knownCyclers.items origin).known ∧
      { g with findings := ended.cycles.foldl Findings.claim g.findings } = g.auditFrom origin) ∧
    (∀ mode known,
      step mode true g.dependencies (explore mode g.dependencies known origin) = none) := by
  obtain ⟨_, hfirst⟩ := plainEnds_explore .firstCycle g.dependencies [] origin
  obtain ⟨_, hevery⟩ :=
    plainEnds_explore .everyCycle g.dependencies g.findings.knownCyclers.items origin
  exact ⟨⟨_, hfirst, rfl, rfl⟩, ⟨_, hevery, rfl, rfl, rfl⟩,
    fun mode known => explore_halts mode g.dependencies known origin⟩

end Graph

end ImportCycles
