import ImportCycles.Proofs.Lock.Settled

open Relation (ReflTransGen)

namespace ImportCycles

namespace Lock

variable {l : Lock} {agent : String} {access : Access}

/-- A lock that keeps a writer out is held by somebody. -/
theorem Exact.holders_ne_nil (hexact : l.Exact) (hbarred : l.admits .write = false) :
    l.holders ≠ [] := by
  rintro hnone
  have hreaders : l.readers = 0 := by simpa [hnone] using hexact.readers_eq
  have hwriter : l.writer = false := by
    have hiff := hexact.writer_iff
    simpa [hnone] using hiff
  simp [admits, hreaders, hwriter] at hbarred

theorem sleepers_request (l : Lock) (agent : String) (access : Access) :
    (l.request agent access).sleepers =
      if l.admits access then l.sleepers else l.sleepers ++ [(agent, access)] := by
  unfold Lock.request
  split <;> cases access <;> rfl

theorem sleepers_retry (l : Lock) (agent : String) (access : Access) :
    (l.retry agent access).sleepers =
      if l.admits access then l.sleepers else l.sleepers ++ [(agent, access)] := by
  unfold Lock.retry
  split <;> cases access <;> rfl

/-- Whoever sleeps after it has come or has looked was asleep before, or has just been kept out. -/
theorem mem_sleepers_cases {entry : String × Access}
    (hmem : entry ∈ if l.admits access then l.sleepers else l.sleepers ++ [(agent, access)]) :
    entry ∈ l.sleepers ∨ (entry = (agent, access) ∧ l.admits access = false) := by
  split at hmem
  · exact .inl hmem
  · rename_i hbarred
    rcases List.mem_append.mp hmem with hold | hnew
    · exact .inl hold
    · exact .inr ⟨List.mem_singleton.mp hnew, by simpa using hbarred⟩

namespace Monitor

/-- Nobody sleeps unattended: who has still to leave, or to get in before it, will wake it. -/
structure Attended (m : Monitor) : Prop where
  writers : ∀ w, (w, .write) ∈ m.lock.sleepers → m.lock.holders ≠ []
  readers : ∀ r, (r, .read) ∈ m.lock.sleepers → ∃ w, (w, .write) ∈ m.parties

/-- What happens while nobody new asks for the lock: a holder leaves it, or one of the woken looks
    again. The list holds the one that leaves. -/
inductive Ebb : Monitor → List (String × Access) → Monitor → Prop where
  | leave {m : Monitor} {agent : String} {access : Access}
      (hholds : (agent, access) ∈ m.lock.holders) :
      Ebb m [(agent, access)] (m.leave agent access)
  | look {m next : Monitor} (hlook : Look m next) : Ebb m [] next

/-- A run without new requests, and its leavers in the order in which they leave. -/
inductive Drain : Monitor → List (String × Access) → Monitor → Prop where
  | refl {m : Monitor} : Drain m [] m
  | tail {m mid next : Monitor} {earlier leavers : List (String × Access)}
      (hdrain : Drain m earlier mid) (hebb : Ebb mid leavers next) :
      Drain m (earlier ++ leavers) next

variable {m mid next last : Monitor} {leavers more : List (String × Access)}

/-- A monitor that keeps a reader out has a writer that holds the lock or wants it. -/
theorem Sound.exists_writer (hsound : m.Sound) (hbarred : m.lock.admits .read = false) :
    ∃ w, (w, .write) ∈ m.parties := by
  have hcause : m.lock.writer = true ∨ 0 < m.lock.waitingWriters := by
    simp only [admits, Bool.and_eq_false_iff, beq_eq_false_iff_ne] at hbarred
    rcases hbarred with hwriter | hwaiting
    · exact .inl (by simpa using hwriter)
    · exact .inr (Nat.pos_of_ne_zero hwaiting)
  rcases hcause with hwriter | hwaiting
  · obtain ⟨w, hholds⟩ := hsound.exact.writer_iff.mp hwriter
    exact ⟨w, mem_parties_iff.mpr (.inl hholds)⟩
  · rw [hsound.waiting_eq, List.countP_pos_iff] at hwaiting
    obtain ⟨⟨w, mode⟩, hmem, hmode⟩ := hwaiting
    obtain rfl : mode = .write := by simpa using hmode
    exact ⟨w, mem_parties_iff.mpr (.inr hmem)⟩

theorem attended_new : ({} : Monitor).Attended where
  writers := by simp
  readers := by simp

/-- Sleepers stay attended while holders and writers stay, if all new sleepers were kept out. -/
theorem Attended.of_barred (hattended : m.Attended) (hsound : m.Sound)
    (hholders : m.lock.holders ⊆ next.lock.holders)
    (hparties : ∀ w, (w, .write) ∈ m.parties → (w, .write) ∈ next.parties)
    (hsleepers : ∀ entry ∈ next.lock.sleepers,
      entry ∈ m.lock.sleepers ∨ m.lock.admits entry.2 = false) : next.Attended where
  writers w hsleeps := by
    have hbefore : m.lock.holders ≠ [] := by
      rcases hsleepers _ hsleeps with hold | hbarred
      · exact hattended.writers w hold
      · exact hsound.exact.holders_ne_nil hbarred
    exact fun hnone => hbefore (List.subset_nil.mp (hnone ▸ hholders))
  readers r hsleeps := by
    have hbefore : ∃ w, (w, .write) ∈ m.parties := by
      rcases hsleepers _ hsleeps with hold | hbarred
      · exact hattended.readers r hold
      · exact hsound.exists_writer hbarred
    obtain ⟨w, hwriter⟩ := hbefore
    exact ⟨w, hparties w hwriter⟩

/-- A leaver that wakes nobody leaves other readers behind, and takes no writer away. -/
theorem Attended.leave (hattended : m.Attended) (hsound : m.Sound)
    (hholds : (agent, access) ∈ m.lock.holders) : (m.leave agent access).Attended := by
  have hparties := leave_parties hholds
  have hleft := hsound.exact.vacate hholds
  unfold Monitor.leave at hparties ⊢
  by_cases hwakes : access = .write ∨ (m.lock.vacate agent access).readers = 0
  · simp only [if_pos hwakes]
    exact ⟨by simp, by simp⟩
  · simp only [if_neg hwakes] at hparties ⊢
    obtain ⟨hreader, hothers⟩ := not_or.mp hwakes
    refine ⟨fun w _ => ?_, fun r hsleeps => ?_⟩
    · rintro hnone
      have hcount := hleft.readers_eq
      rw [hnone] at hcount
      exact hothers hcount
    · obtain ⟨w, hwriter⟩ := hattended.readers r (by simpa using hsleeps)
      refine ⟨w, (List.mem_cons.mp (hparties.mem_iff.mp hwriter)).resolve_left ?_⟩
      exact fun heq => hreader (Prod.mk.inj heq).2.symm

theorem Attended.step (hattended : m.Attended) (hsound : m.Sound) (hstep : Step m next) :
    next.Attended := by
  cases hstep with
  | @request agent access hnew =>
    refine hattended.of_barred hsound ?_ ?_ ?_
    · rw [holders_request]
      split <;> simp
    · exact fun w hwriter => (request_parties m agent access).mem_iff.mpr (.tail _ hwriter)
    · intro entry hsleeps
      rw [sleepers_request] at hsleeps
      rcases mem_sleepers_cases hsleeps with hold | ⟨rfl, hbarred⟩
      · exact .inl hold
      · exact .inr hbarred
  | leave hholds => exact hattended.leave hsound hholds
  | look hlook =>
    have hparties := hlook.parties
    obtain @⟨l, agent, access, before, after⟩ := hlook
    refine hattended.of_barred hsound ?_ ?_ ?_
    · rw [holders_retry]
      split <;> simp
    · exact fun w hwriter => hparties.mem_iff.mp hwriter
    · intro entry hsleeps
      rw [sleepers_retry] at hsleeps
      rcases mem_sleepers_cases hsleeps with hold | ⟨rfl, hbarred⟩
      · exact .inl hold
      · exact .inr hbarred

theorem Reachable.attended (hreach : m.Reachable) : m.Attended := by
  induction hreach with
  | refl => exact attended_new
  | tail hbefore hstep ih => exact ih.step (Reachable.sound hbefore) hstep

/-- Between two looks somebody holds the lock, if anybody holds or wants it. -/
theorem Attended.holders_ne_nil (hattended : m.Attended) (hawake : m.awake = [])
    (hparties : m.parties ≠ []) : m.lock.holders ≠ [] := by
  intro hnone
  obtain ⟨⟨agent, access⟩, hmem⟩ := List.exists_mem_of_ne_nil _ hparties
  have hsleepers : ∀ entry, entry ∈ m.parties ↔ entry ∈ m.lock.sleepers := by
    simp [parties, hnone, hawake]
  have hwriter : ∃ w, (w, .write) ∈ m.parties := by
    cases access with
    | write => exact ⟨agent, hmem⟩
    | read => exact hattended.readers agent ((hsleepers _).mp hmem)
  obtain ⟨w, hwaits⟩ := hwriter
  exact hattended.writers w ((hsleepers _).mp hwaits) hnone

/-- As long as anybody holds or wants the lock, something happens without a new request. -/
theorem Attended.exists_ebb (hattended : m.Attended) (hparties : m.parties ≠ []) :
    ∃ leavers next, Ebb m leavers next := by
  by_cases hawake : m.awake = []
  · obtain ⟨⟨agent, access⟩, hholds⟩ :=
      List.exists_mem_of_ne_nil _ (hattended.holders_ne_nil hawake hparties)
    exact ⟨_, _, .leave hholds⟩
  · obtain ⟨l, awake⟩ := m
    obtain ⟨⟨agent, access⟩, rest, rfl⟩ := List.exists_cons_of_ne_nil hawake
    exact ⟨_, _, .look (.retry [] rest)⟩

theorem Ebb.step (hebb : Ebb m leavers next) : Step m next := by
  cases hebb with
  | leave hholds => exact .leave hholds
  | look hlook => exact .look hlook

theorem Ebb.parties (hebb : Ebb m leavers next) : m.parties.Perm (leavers ++ next.parties) := by
  cases hebb with
  | leave hholds => exact leave_parties hholds
  | look hlook => exact hlook.parties

theorem Drain.reachable (hdrain : Drain m leavers last) (hreach : m.Reachable) :
    last.Reachable := by
  induction hdrain with
  | refl => exact hreach
  | tail _ hebb ih => exact .tail ih hebb.step

/-- Nobody is lost on the way: those who held or wanted the lock have left, or still do. -/
theorem Drain.parties (hdrain : Drain m leavers last) :
    m.parties.Perm (leavers ++ last.parties) := by
  induction hdrain with
  | refl => exact .refl _
  | tail _ hebb ih =>
    rw [List.append_assoc]
    exact ih.trans (hebb.parties.append_left _)

theorem Drain.length_parties (hdrain : Drain m leavers last) :
    m.parties.length = leavers.length + last.parties.length := by
  rw [hdrain.parties.length_eq, List.length_append]

theorem Drain.parties_of_length_eq (hdrain : Drain m leavers last)
    (hlength : leavers.length = m.parties.length) :
    last.parties = [] ∧ leavers.Perm m.parties := by
  have hnone : last.parties = [] := by
    apply List.eq_nil_of_length_eq_zero
    have htotal := hdrain.length_parties
    omega
  have hparties := hdrain.parties
  rw [hnone, List.append_nil] at hparties
  exact ⟨hnone, hparties.symm⟩

/-- A run without new requests goes on until as many have left as held or wanted the lock. -/
theorem Drain.outcome (hdrain : Drain m leavers last) (hreach : m.Reachable) :
    leavers.length ≤ m.parties.length ∧
      (leavers.length < m.parties.length → ∃ more next, Ebb last more next) ∧
      (leavers.length = m.parties.length → last.parties = [] ∧ leavers.Perm m.parties) := by
  have htotal := hdrain.length_parties
  refine ⟨by omega, ?_, hdrain.parties_of_length_eq⟩
  intro hmore
  apply (hdrain.reachable hreach).attended.exists_ebb
  exact List.ne_nil_of_length_pos (by omega)

theorem Drain.trans (hdrain : Drain m leavers mid) (hmore : Drain mid more last) :
    Drain m (leavers ++ more) last := by
  induction hmore with
  | refl => simpa using hdrain
  | tail _ hebb ih =>
    rw [← List.append_assoc]
    exact .tail ih hebb

theorem drain_of_looks (hlooks : ReflTransGen Look m last) : Drain m [] last := by
  induction hlooks with
  | refl => exact .refl
  | tail _ hlook ih => exact .tail ih (.look hlook)

/-- Each step without a new request leaves fewer who hold or want the lock, or fewer awake. -/
theorem wellFounded_ebb : WellFounded fun next m => ∃ leavers, Ebb m leavers next := by
  have hlex := (Prod.lex Nat.lt_wfRel Nat.lt_wfRel).wf
  refine Subrelation.wf (fun {next m} hebb => ?_)
    (InvImage.wf (fun m : Monitor => (m.parties.length, m.awake.length)) hlex)
  obtain ⟨leavers, hebb⟩ := hebb
  have hlength := hebb.parties.length_eq
  cases hebb with
  | leave hholds =>
    refine Prod.Lex.left _ _ ?_
    simp only [List.length_append, List.length_singleton] at hlength
    change List.length _ < List.length _
    omega
  | look hlook =>
    obtain @⟨l, agent, access, before, after⟩ := hlook
    change Prod.Lex _ _ (_, _) (_, _)
    rw [← List.nil_append (parties _), ← hlength]
    refine Prod.Lex.right _ ?_
    change List.length _ < List.length _
    simp

end Monitor

/-- A run in which holders leave a settled lock, in whatever way and order, and nobody new asks for
    it. The list holds the leavers, first to last. -/
inductive Departures (l : Lock) : List (String × Access) → Lock → Prop where
  | refl : Departures l [] l
  | tail {mid : Lock} {leavers : List (String × Access)} {agent : String} {access : Access}
      {action : Action} (hrun : Departures l leavers mid) (hholds : (agent, access) ∈ mid.holders)
      (haction : action = .release ∨ action = .raise) :
      Departures l (leavers ++ [(agent, access)]) (mid.act agent action)

variable {last : Lock} {leavers : List (String × Access)}

/-- Departures from the settled lock are a run of the monitor in which all look who are woken. -/
theorem Departures.drain (hrun : l.Departures leavers last)
    (hreach : Monitor.Reachable ⟨l, []⟩) : Monitor.Drain ⟨l, []⟩ leavers ⟨last, []⟩ := by
  induction hrun with
  | refl => exact .refl
  | @tail mid leavers agent access action hrun hholds haction ih =>
    have hact : mid.act agent action = mid.leave agent := by
      rcases haction with rfl | rfl <;> rfl
    have hlookup : mid.holders.lookup agent = some access :=
      lookup_of_mem (ih.reachable hreach).sound.holders_distinct hholds
    have hlooks := Monitor.drain_of_looks (looks_of_leave hlookup)
    rw [hact, ← List.append_nil (leavers ++ _)]
    exact (Monitor.Drain.tail ih (.leave hholds)).trans hlooks

/-- Departures can go on until all have left who held the lock or slept, and not longer. -/
theorem Departures.outcome (hrun : l.Departures leavers last)
    (hreach : Monitor.Reachable ⟨l, []⟩) :
    leavers.length ≤ l.holders.length + l.sleepers.length ∧
      (leavers.length < l.holders.length + l.sleepers.length → last.holders ≠ []) ∧
      (leavers.length = l.holders.length + l.sleepers.length →
        last.holders = [] ∧ last.sleepers = [] ∧ leavers.Perm (l.holders ++ l.sleepers)) := by
  have hdrain := hrun.drain hreach
  have hparties : Monitor.parties ⟨l, []⟩ = l.holders ++ l.sleepers := List.append_nil _
  have htotal := hdrain.length_parties
  rw [← List.length_append, ← hparties]
  refine ⟨by omega, ?_, ?_⟩
  · intro hmore
    apply (hdrain.reachable hreach).attended.holders_ne_nil rfl
    exact List.ne_nil_of_length_pos (by omega)
  · intro hlength
    obtain ⟨hnone, hleft⟩ := hdrain.parties_of_length_eq hlength
    obtain ⟨hholders, hsleepers⟩ : last.holders = [] ∧ last.sleepers = [] := by
      simpa [Monitor.parties] using hnone
    exact ⟨hholders, hsleepers, hleft⟩

/-- No wake-up is lost. In the settled lock a sleeping writer has a holder to wait for, and a
    sleeping reader a writer. When only departures follow, each leaves somebody in the lock until
    all have left who held it or slept, each in the mode it wanted. The same holds in the monitor,
    where the woken look at any later time and in any order: it never gets stuck, and cannot go on
    forever without a new request. -/
theorem no_lost_wakeups :
    (∀ l, Settled l →
      (∀ w, (w, .write) ∈ l.sleepers → l.holders ≠ []) ∧
      (∀ r, (r, .read) ∈ l.sleepers → ∃ w, (w, .write) ∈ l.holders ++ l.sleepers) ∧
      (l.sleepers ≠ [] → l.holders ≠ []) ∧
      ∀ leavers last, l.Departures leavers last →
        leavers.length ≤ l.holders.length + l.sleepers.length ∧
        (leavers.length < l.holders.length + l.sleepers.length → last.holders ≠ []) ∧
        (leavers.length = l.holders.length + l.sleepers.length →
          last.holders = [] ∧ last.sleepers = [] ∧
            leavers.Perm (l.holders ++ l.sleepers))) ∧
    (∀ m : Monitor, m.Reachable →
      (∀ w, (w, .write) ∈ m.lock.sleepers → m.lock.holders ≠ []) ∧
      (∀ r, (r, .read) ∈ m.lock.sleepers → ∃ w, (w, .write) ∈ m.parties) ∧
      ∀ leavers last, m.Drain leavers last →
        leavers.length ≤ m.parties.length ∧
        (leavers.length < m.parties.length → ∃ more next, last.Ebb more next) ∧
        (leavers.length = m.parties.length →
          last.parties = [] ∧ leavers.Perm m.parties)) ∧
    WellFounded fun next m : Monitor => ∃ leavers, m.Ebb leavers next := by
  refine ⟨?_, ?_, Monitor.wellFounded_ebb⟩
  · intro l hsettled
    have hreach := hsettled.reachable
    have hattended := hreach.attended
    have hparties : Monitor.parties ⟨l, []⟩ = l.holders ++ l.sleepers := List.append_nil _
    refine ⟨hattended.writers, ?_, ?_, ?_⟩
    · intro r hsleeps
      rw [← hparties]
      exact hattended.readers r hsleeps
    · intro hsleepers
      apply hattended.holders_ne_nil rfl
      rw [hparties]
      exact fun hnone => hsleepers (List.append_eq_nil_iff.mp hnone).2
    · exact fun _ _ hrun => hrun.outcome hreach
  · intro m hreach
    have hattended := hreach.attended
    exact ⟨hattended.writers, hattended.readers, fun _ _ hdrain => hdrain.outcome hreach⟩

/-- A writer and a second reader queue behind a reader. Each departure lets in the next of them, and
    the third leaves the lock free. -/
theorem no_lost_wakeups_queue :
    let queued : Lock :=
      { readers := 1, waitingWriters := 1, holders := [("a", .read)],
        sleepers := [("w", .write), ("b", .read)] }
    let leavers : List (String × Access) := [("a", .read), ("w", .write), ("b", .read)]
    Settled queued ∧ queued.Departures (leavers.take 1) { queued with
        readers := 0, writer := true, waitingWriters := 0, holders := [("w", .write)],
        sleepers := [("b", .read)] } ∧
      queued.Departures leavers {} ∧ queued.holders ≠ [] ∧
      leavers.Perm (queued.holders ++ queued.sleepers) := by
  intro queued leavers
  have hsettled : Settled queued :=
    .tail (.tail (.tail .refl ⟨"a", .request .read, by simp [Legal], rfl⟩)
      ⟨"w", .request .write, by simp [Legal, act, request, admits, enter], rfl⟩)
      ⟨"b", .request .read, by simp [Legal, act, request, admits, enter], rfl⟩
  have hrelease : Action.release = .release ∨ Action.release = .raise := .inl rfl
  have hraise : Action.raise = .release ∨ Action.raise = .raise := .inr rfl
  have hfirst := Departures.tail (l := queued) .refl (.head _) hraise
  have hsecond := Departures.tail hfirst (.head _) hrelease
  have hrun := Departures.tail hsecond (.head _) hrelease
  obtain ⟨hwriters, -, -, hdrain⟩ := no_lost_wakeups.1 queued hsettled
  obtain ⟨-, -, hall⟩ := hdrain leavers {} hrun
  exact ⟨hsettled, hfirst, hrun, hwriters "w" (.head _), (hall rfl).2.2⟩

end Lock

end ImportCycles
