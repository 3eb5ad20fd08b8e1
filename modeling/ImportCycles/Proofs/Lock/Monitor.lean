import Mathlib.Data.List.Nodup
import Mathlib.Data.List.Perm.Basic
import Mathlib.Logic.Relation
import ImportCycles.Lock

open Relation (ReflTransGen)

namespace ImportCycles

namespace Lock

/-- The counters tell who holds the lock: many readers, or one writer alone. -/
structure Exact (l : Lock) : Prop where
  readers_eq : l.readers = l.holders.countP (·.2 = .read)
  writer_iff : l.writer = true ↔ ∃ agent, (agent, Access.write) ∈ l.holders
  alone : ∀ agent, (agent, Access.write) ∈ l.holders → l.holders = [(agent, .write)]

/-- The lock that a holder has left, before anybody is woken. -/
def vacate (l : Lock) (agent : String) : Access → Lock
  | .read => { l with readers := l.readers - 1, holders := l.holders.erase (agent, .read) }
  | .write => { l with writer := false, holders := l.holders.erase (agent, .write) }

variable {l : Lock} {agent : String} {access : Access}

@[simp] theorem holders_vacate (l : Lock) (agent : String) (access : Access) :
    (l.vacate agent access).holders = l.holders.erase (agent, access) := by
  cases access <;> rfl

@[simp] theorem sleepers_vacate (l : Lock) (agent : String) (access : Access) :
    (l.vacate agent access).sleepers = l.sleepers := by
  cases access <;> rfl

@[simp] theorem waitingWriters_vacate (l : Lock) (agent : String) (access : Access) :
    (l.vacate agent access).waitingWriters = l.waitingWriters := by
  cases access <;> rfl

theorem exact_new : ({} : Lock).Exact where
  readers_eq := rfl
  writer_iff := by simp
  alone := by simp

/-- Whom the lock lets in finds it free of writers, and a writer finds it free of all. -/
theorem Exact.holders_of_admits (hexact : l.Exact) (hadmits : l.admits access = true) :
    l.writer = false ∧ (∀ other, (other, Access.write) ∉ l.holders) ∧
      (access = .write → l.readers = 0 ∧ l.holders = []) := by
  have hwriter : l.writer = false := by cases access <;> simp_all [admits]
  have hnone : ∀ other, (other, Access.write) ∉ l.holders := by
    intro other hmem
    simp [hexact.writer_iff.mpr ⟨other, hmem⟩] at hwriter
  refine ⟨hwriter, hnone, ?_⟩
  rintro rfl
  have hreaders : l.readers = 0 := by simp_all [admits]
  refine ⟨hreaders, List.eq_nil_iff_forall_not_mem.mpr ?_⟩
  rintro ⟨other, mode⟩ hmem
  cases mode with
  | write => exact hnone other hmem
  | read =>
    have hcount := hexact.readers_eq
    rw [hreaders] at hcount
    simpa using List.countP_eq_zero.mp hcount.symm _ hmem

theorem Exact.enter (hexact : l.Exact) (hadmits : l.admits access = true) (agent : String) :
    (l.enter agent access).Exact := by
  obtain ⟨hwriter, hnone, hfree⟩ := hexact.holders_of_admits hadmits
  cases access with
  | read =>
    refine ⟨?_, ?_, ?_⟩
    · simp [Lock.enter, hexact.readers_eq]
    · simp [Lock.enter, hwriter, hnone]
    · intro other hmem
      simp [Lock.enter, hnone] at hmem
  | write =>
    obtain ⟨hreaders, hholders⟩ := hfree rfl
    refine ⟨?_, ?_, ?_⟩
    · simp [Lock.enter, hreaders, hholders]
    · simp [Lock.enter, hholders]
    · simp [Lock.enter, hholders]

theorem Exact.request (hexact : l.Exact) (agent : String) (access : Access) :
    (l.request agent access).Exact := by
  unfold Lock.request
  split
  · rename_i hadmits
    exact hexact.enter hadmits agent
  · cases access with
    | read => exact { hexact with }
    | write => exact { hexact with }

theorem Exact.retry (hexact : l.Exact) (agent : String) (access : Access) :
    (l.retry agent access).Exact := by
  unfold Lock.retry
  split
  · rename_i hadmits
    have henter := hexact.enter hadmits agent
    cases access with
    | read => exact henter
    | write => exact { henter with }
  · exact { hexact with }

theorem Exact.vacate (hexact : l.Exact) (hholds : (agent, access) ∈ l.holders) :
    (l.vacate agent access).Exact := by
  cases access with
  | read =>
    have hnone : ∀ other, (other, Access.write) ∉ l.holders := by
      intro other hmem
      rw [hexact.alone other hmem] at hholds
      simp at hholds
    have hleft : ∀ other, (other, Access.write) ∉ l.holders.erase (agent, .read) :=
      fun other hmem => hnone other (List.mem_of_mem_erase hmem)
    have hcount := (List.perm_cons_erase hholds).countP_eq (·.2 = Access.read)
    refine ⟨?_, ?_, ?_⟩
    · simp only [Lock.vacate, hexact.readers_eq, hcount]
      simp
    · have hwriter := hexact.writer_iff
      simp only [hnone, exists_false, iff_false] at hwriter
      simp [Lock.vacate, hwriter, hleft]
    · exact fun other hmem => absurd hmem (hleft other)
  | write =>
    have halone := hexact.alone agent hholds
    have hreaders := hexact.readers_eq
    simp only [halone] at hreaders
    refine ⟨?_, ?_, ?_⟩
    · simpa [Lock.vacate, halone] using hreaders
    · simp [Lock.vacate, halone]
    · simp [Lock.vacate, halone]

theorem request_perm (l : Lock) (agent : String) (access : Access) :
    ((l.request agent access).holders ++ (l.request agent access).sleepers).Perm
      ((agent, access) :: (l.holders ++ l.sleepers)) := by
  unfold Lock.request
  split
  · cases access <;> simp [Lock.enter, List.perm_middle]
  · cases access <;> simp only [← List.append_assoc, List.perm_append_singleton]

theorem retry_perm (l : Lock) (agent : String) (access : Access) :
    ((l.retry agent access).holders ++ (l.retry agent access).sleepers).Perm
      ((agent, access) :: (l.holders ++ l.sleepers)) := by
  unfold Lock.retry
  split
  · cases access <;> simp [Lock.enter, List.perm_middle]
  · simp only [← List.append_assoc, List.perm_append_singleton]

/-- Only an agent that the counters let in becomes a holder. -/
theorem holders_request (l : Lock) (agent : String) (access : Access) :
    (l.request agent access).holders =
      if l.admits access then l.holders ++ [(agent, access)] else l.holders := by
  unfold Lock.request
  split <;> cases access <;> rfl

theorem holders_retry (l : Lock) (agent : String) (access : Access) :
    (l.retry agent access).holders =
      if l.admits access then l.holders ++ [(agent, access)] else l.holders := by
  unfold Lock.retry
  split <;> cases access <;> rfl

/-- While the counters keep readers out, whoever comes now does not become a holder for reading. -/
theorem mem_holders_of_shut {r : String} (hshut : l.admits .read = false)
    (hmem : (r, .read) ∈ if l.admits access then l.holders ++ [(agent, access)] else l.holders) :
    (r, Access.read) ∈ l.holders := by
  split at hmem
  · rename_i hadmits
    rcases List.mem_append.mp hmem with hheld | hentered
    · exact hheld
    · cases List.mem_singleton.mp hentered
      simp [hshut] at hadmits
  · exact hmem

/-- A lock together with the agents that have been woken and have not looked again yet. -/
structure Monitor where
  lock : Lock := {}
  awake : List (String × Access) := []

namespace Monitor

/-- Everybody who holds the lock or wants it. -/
def parties (m : Monitor) : List (String × Access) :=
  m.lock.holders ++ m.lock.sleepers ++ m.awake

/-- A holder leaves. The writer wakes all sleepers, and so does the last reader. -/
def leave (m : Monitor) (agent : String) (access : Access) : Monitor :=
  let left := m.lock.vacate agent access
  if access = .write ∨ left.readers = 0 then
    { lock := { left with sleepers := [] }, awake := m.awake ++ left.sleepers }
  else
    { m with lock := left }

/-- A woken agent looks again: it enters, or goes back to sleep. -/
inductive Look : Monitor → Monitor → Prop where
  | retry {l : Lock} {agent : String} {access : Access} (before after : List (String × Access)) :
      Look ⟨l, before ++ (agent, access) :: after⟩ ⟨l.retry agent access, before ++ after⟩

/-- What can happen next: somebody new asks for the lock, a holder leaves it in whatever way, or one
    of the woken looks again. -/
inductive Step : Monitor → Monitor → Prop where
  | request {m : Monitor} {agent : String} (access : Access)
      (hnew : agent ∉ m.parties.map (·.1)) :
      Step m { m with lock := m.lock.request agent access }
  | leave {m : Monitor} {agent : String} {access : Access}
      (hholds : (agent, access) ∈ m.lock.holders) : Step m (m.leave agent access)
  | look {m next : Monitor} (hlook : Look m next) : Step m next

/-- A state that a new lock gets into. -/
def Reachable : Monitor → Prop :=
  ReflTransGen Step {}

/-- What every step preserves: the counters are exact, for the writers that wait as well, and nobody
    takes part twice. -/
structure Sound (m : Monitor) : Prop where
  exact : m.lock.Exact
  waiting_eq : m.lock.waitingWriters = (m.lock.sleepers ++ m.awake).countP (·.2 = .write)
  distinct : (m.parties.map (·.1)).Nodup

variable {m next : Monitor}

theorem sound_new : ({} : Monitor).Sound where
  exact := exact_new
  waiting_eq := rfl
  distinct := .nil

@[simp] theorem holders_leave (m : Monitor) (agent : String) (access : Access) :
    (m.leave agent access).lock.holders = m.lock.holders.erase (agent, access) := by
  simp only [leave]
  split <;> simp

theorem request_parties (m : Monitor) (agent : String) (access : Access) :
    { m with lock := m.lock.request agent access }.parties.Perm ((agent, access) :: m.parties) :=
  (request_perm m.lock agent access).append_right m.awake

theorem Look.parties (hlook : Look m next) : m.parties.Perm next.parties := by
  obtain @⟨l, agent, access, before, after⟩ := hlook
  have hout : (l.holders ++ l.sleepers ++ (before ++ (agent, access) :: after)).Perm
      ((agent, access) :: (l.holders ++ l.sleepers ++ (before ++ after))) := by
    simp only [← List.append_assoc, List.perm_middle]
  exact hout.trans ((retry_perm l agent access).symm.append_right (before ++ after))

theorem leave_parties (hholds : (agent, access) ∈ m.lock.holders) :
    m.parties.Perm ((agent, access) :: (m.leave agent access).parties) := by
  have hleft : m.parties.Perm ((agent, access) ::
      (m.lock.holders.erase (agent, access) ++ (m.lock.sleepers ++ m.awake))) := by
    rw [parties, List.append_assoc]
    exact (List.perm_cons_erase hholds).append_right _
  refine hleft.trans (.cons _ ?_)
  simp only [parties, leave]
  split
  · simpa using List.perm_append_comm.append_left _
  · simp

theorem Sound.request (hsound : m.Sound) (access : Access) (hnew : agent ∉ m.parties.map (·.1)) :
    { m with lock := m.lock.request agent access }.Sound := by
  obtain ⟨hexact, hwaiting, hdistinct⟩ := hsound
  refine ⟨hexact.request agent access, ?_, ?_⟩
  · simp only [Lock.request]
    split
    · cases access <;> exact hwaiting
    · -- a writer that falls asleep is counted, a reader is not
      cases access <;> simp [hwaiting]
      omega
  · rw [((request_parties m agent access).map (·.1)).nodup_iff]
    exact List.nodup_cons.mpr ⟨hnew, hdistinct⟩

theorem Sound.look (hsound : m.Sound) (hlook : Look m next) : next.Sound := by
  obtain ⟨hexact, hwaiting, hdistinct⟩ := hsound
  rw [(hlook.parties.map (·.1)).nodup_iff] at hdistinct
  obtain @⟨l, agent, access, before, after⟩ := hlook
  refine ⟨hexact.retry agent access, ?_, hdistinct⟩
  simp only [List.countP_append, List.countP_cons] at hwaiting
  simp only [Lock.retry]
  split
  · -- a writer that enters is no longer counted
    cases access <;> simp [Lock.enter, hwaiting]
    omega
  · cases access <;> simp [hwaiting]
    omega

theorem Sound.leave (hsound : m.Sound) (hholds : (agent, access) ∈ m.lock.holders) :
    (m.leave agent access).Sound := by
  obtain ⟨hexact, hwaiting, hdistinct⟩ := hsound
  rw [((leave_parties hholds).map (·.1)).nodup_iff, List.map_cons] at hdistinct
  refine ⟨?_, ?_, hdistinct.of_cons⟩
  · have hleft := hexact.vacate hholds
    simp only [Monitor.leave]
    split
    · exact { hleft with }
    · exact hleft
  · simp only [Monitor.leave]
    split
    · simp [hwaiting, Nat.add_comm]
    · simp [hwaiting]

theorem Sound.step (hsound : m.Sound) (hstep : Step m next) : next.Sound := by
  cases hstep with
  | request access hnew => exact hsound.request access hnew
  | leave hholds => exact hsound.leave hholds
  | look hlook => exact hsound.look hlook

theorem Reachable.sound (hreach : m.Reachable) : m.Sound := by
  induction hreach with
  | refl => exact sound_new
  | tail _ hstep ih => exact ih.step hstep

theorem Sound.holders_distinct (hsound : m.Sound) : (m.lock.holders.map (·.1)).Nodup := by
  have hdistinct := hsound.distinct
  rw [parties, List.append_assoc, List.map_append] at hdistinct
  exact hdistinct.of_append_left

/-- The writer `w` waits for the lock: it sleeps, or has been woken and has not looked again. -/
def Waits (m : Monitor) (w : String) : Prop :=
  (w, .write) ∈ m.lock.sleepers ++ m.awake

/-- The agent `r` gets the lock for reading on the way from `m` to `next`. -/
def ReadEntry (m next : Monitor) (r : String) : Prop :=
  (r, .read) ∉ m.lock.holders ∧ (r, .read) ∈ next.lock.holders

variable {w r : String}

theorem mem_parties_iff : (w, .write) ∈ m.parties ↔ (w, .write) ∈ m.lock.holders ∨ m.Waits w := by
  rw [parties, List.append_assoc]
  exact List.mem_append

/-- While a writer waits or writes, the counters keep readers out. -/
theorem Sound.admits_read (hsound : m.Sound) (hwriter : (w, .write) ∈ m.parties) :
    m.lock.admits .read = false := by
  rcases mem_parties_iff.mp hwriter with hholds | hwaits
  · simp [admits, hsound.exact.writer_iff.mpr ⟨w, hholds⟩]
  · have hcounted : 0 < m.lock.waitingWriters := by
      rw [hsound.waiting_eq, List.countP_pos_iff]
      exact ⟨_, hwaits, rfl⟩
    simp [admits, Nat.ne_of_gt hcounted]

/-- A writer that waits is not one of the holders, who alone can leave. -/
theorem Sound.not_holds (hsound : m.Sound) (hwaits : m.Waits w) (access : Access) :
    (w, access) ∉ m.lock.holders := by
  intro hholds
  have hdistinct := hsound.distinct
  rw [parties, List.append_assoc, List.map_append] at hdistinct
  have hheld : w ∈ m.lock.holders.map (·.1) := List.mem_map.mpr ⟨_, hholds, rfl⟩
  exact List.disjoint_of_nodup_append hdistinct hheld (List.mem_map.mpr ⟨_, hwaits, rfl⟩)

theorem not_readEntry_of_look (hshut : m.lock.admits .read = false) (hlook : Look m next) :
    ¬ m.ReadEntry next r := by
  obtain @⟨l, agent, access, before, after⟩ := hlook
  rintro ⟨hout, hin⟩
  rw [holders_retry] at hin
  exact hout (mem_holders_of_shut hshut hin)

/-- No step lets a reader in that the counters keep out. -/
theorem not_readEntry_of_step (hshut : m.lock.admits .read = false) (hstep : Step m next) :
    ¬ m.ReadEntry next r := by
  cases hstep with
  | request access hnew =>
    rintro ⟨hout, hin⟩
    rw [holders_request] at hin
    exact hout (mem_holders_of_shut hshut hin)
  | leave hholds =>
    rintro ⟨hout, hin⟩
    rw [holders_leave] at hin
    exact hout (List.mem_of_mem_erase hin)
  | look hlook => exact not_readEntry_of_look hshut hlook

/-- A writer that waits still waits after a step, or has got the lock. -/
theorem Sound.waits_step (hsound : m.Sound) (hwaits : m.Waits w) (hstep : Step m next) :
    (w, .write) ∈ next.lock.holders ∨ next.Waits w := by
  have hwriter : (w, .write) ∈ m.parties := mem_parties_iff.mpr (.inr hwaits)
  rw [← mem_parties_iff]
  cases hstep with
  | request access hnew =>
    exact (request_parties m _ access).mem_iff.mpr (List.mem_cons_of_mem _ hwriter)
  | leave hholds =>
    rcases List.mem_cons.mp ((leave_parties hholds).mem_iff.mp hwriter) with hself | hkept
    · cases hself
      exact absurd hholds (hsound.not_holds hwaits .write)
    · exact hkept
  | look hlook => exact hlook.parties.mem_iff.mp hwriter

/-- A run during which the writer `w` waits: its last step may be the one that lets it in. -/
def Meanwhile (w : String) : Monitor → Monitor → Prop :=
  ReflTransGen fun m next => m.Waits w ∧ Step m next

theorem Meanwhile.reachable (hrun : Meanwhile w m next) (hreach : m.Reachable) :
    next.Reachable := by
  induction hrun with
  | refl => exact hreach
  | tail _ hstep ih => exact ih.tail hstep.2

/-- From the moment at which a writer starts to wait until it gets the lock, nobody gets the lock
    for reading, and the writer does not lose its claim. -/
theorem Meanwhile.writers_first (hrun : Meanwhile w m next) (hreach : m.Reachable)
    (hwaits : m.Waits w) :
    (∀ r, ¬ m.ReadEntry next r) ∧ ((w, .write) ∈ next.lock.holders ∨ next.Waits w) := by
  induction hrun with
  | refl => exact ⟨fun r hentry => hentry.1 hentry.2, .inr hwaits⟩
  | tail hrun hstep ih =>
    rename_i mid next
    have hsound := (Meanwhile.reachable hrun hreach).sound
    have hshut := hsound.admits_read (mem_parties_iff.mpr (.inr hstep.1))
    refine ⟨?_, hsound.waits_step hstep.1 hstep.2⟩
    rintro r ⟨hout, hin⟩
    refine not_readEntry_of_step hshut hstep.2 ⟨?_, hin⟩
    exact fun hmid => ih.1 r ⟨hout, hmid⟩

end Monitor

end Lock

end ImportCycles
