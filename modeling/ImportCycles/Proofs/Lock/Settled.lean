import ImportCycles.Proofs.Lock.Monitor
import ImportCycles.Proofs.Lookup

open Relation (ReflTransGen)

namespace ImportCycles

namespace Lock

/-- An agent asks for the lock when it neither holds it nor sleeps, and leaves it when it holds
    it. -/
def Legal (l : Lock) (agent : String) : Action → Prop
  | .request _ => agent ∉ (l.holders ++ l.sleepers).map (·.1)
  | .release => agent ∈ l.holders.map (·.1)
  | .raise => agent ∈ l.holders.map (·.1)

/-- One legal action of one agent. -/
def Turn (l next : Lock) : Prop :=
  ∃ agent action, l.Legal agent action ∧ next = l.act agent action

/-- A state of the lock after any sequence of legal actions. -/
def Settled : Lock → Prop :=
  ReflTransGen Turn {}

/-- A sequence of legal actions during which the writer `w` sleeps. The last of them may be the one
    that lets it in. -/
def TurnsBefore (w : String) : Lock → Lock → Prop :=
  ReflTransGen fun l next => (w, .write) ∈ l.sleepers ∧ Turn l next

variable {l next : Lock} {m n : Monitor} {agent w r : String} {access : Access}

/-- Everybody who was woken looks again, in order. -/
theorem looks_of_woken (l : Lock) (woken : List (String × Access)) :
    ReflTransGen Monitor.Look ⟨l, woken⟩
      ⟨woken.foldl (fun l (agent, access) => l.retry agent access) l, []⟩ := by
  induction woken generalizing l with
  | nil => exact .refl
  | cons first rest ih => exact .head (.retry [] rest) (ih _)

theorem looks_of_leave (hlookup : l.holders.lookup agent = some access) :
    ReflTransGen Monitor.Look (Monitor.leave ⟨l, []⟩ agent access) ⟨l.leave agent, []⟩ := by
  cases access with
  | write =>
    simp only [Lock.leave, hlookup]
    exact looks_of_woken _ l.sleepers
  | read =>
    simp only [Lock.leave, hlookup, Monitor.leave, vacate]
    by_cases hlast : l.readers - 1 = 0
    · simpa [hlast, wakeAll] using looks_of_woken _ l.sleepers
    · simpa [hlast] using ReflTransGen.refl

/-- A legal action is one step of the monitor, followed by looks until nobody is awake. -/
theorem Turn.step (hturn : Turn l next) (hsound : Monitor.Sound ⟨l, []⟩) :
    ∃ m, Monitor.Step ⟨l, []⟩ m ∧ ReflTransGen Monitor.Look m ⟨next, []⟩ := by
  obtain ⟨agent, action, hlegal, rfl⟩ := hturn
  have hleave (hholds : agent ∈ l.holders.map (·.1)) :
      ∃ m, Monitor.Step ⟨l, []⟩ m ∧ ReflTransGen Monitor.Look m ⟨l.leave agent, []⟩ := by
    obtain ⟨⟨_, access⟩, hmem, rfl⟩ := List.mem_map.mp hholds
    have hlookup := lookup_of_mem hsound.holders_distinct hmem
    exact ⟨_, .leave hmem, looks_of_leave hlookup⟩
  cases action with
  | request access =>
    refine ⟨_, .request access ?_, .refl⟩
    rwa [Monitor.parties, List.append_nil]
  | release => exact hleave hlegal
  | raise => exact hleave hlegal

theorem Settled.reachable (hsettled : Settled l) : Monitor.Reachable ⟨l, []⟩ := by
  induction hsettled with
  | refl => exact .refl
  | tail _ hturn ih =>
    obtain ⟨m, hstep, hlooks⟩ := hturn.step ih.sound
    exact (ih.tail hstep).trans (ReflTransGen.mono (fun _ _ => Monitor.Step.look) _ _ hlooks)

/-- While woken agents look, no reader enters before a writer that waits or writes. -/
theorem not_readEntry_of_looks (hsound : m.Sound) (hwriter : (w, .write) ∈ m.parties)
    (hlooks : ReflTransGen Monitor.Look m n) (hin : (r, .read) ∈ n.lock.holders) :
    (r, .read) ∈ m.lock.holders := by
  induction hlooks using ReflTransGen.head_induction_on with
  | refl => exact hin
  | head hlook _ ih =>
    by_contra hout
    have hmid := ih (hsound.look hlook) (hlook.parties.mem_iff.mp hwriter)
    exact Monitor.not_readEntry_of_look (hsound.admits_read hwriter) hlook ⟨hout, hmid⟩

theorem parties_of_looks (hlooks : ReflTransGen Monitor.Look m n) : m.parties.Perm n.parties := by
  induction hlooks with
  | refl => exact .refl _
  | tail _ hlook ih => exact ih.trans hlook.parties

/-- A legal action lets no reader in before a writer that sleeps, and leaves that writer asleep or
    lets it in. -/
theorem Turn.writers_first (hturn : Turn l next) (hsound : Monitor.Sound ⟨l, []⟩)
    (hsleeps : (w, .write) ∈ l.sleepers) :
    (∀ r, (r, .read) ∈ next.holders → (r, .read) ∈ l.holders) ∧
      ((w, .write) ∈ next.holders ∨ (w, .write) ∈ next.sleepers) := by
  have hwaits : Monitor.Waits ⟨l, []⟩ w := List.mem_append_left _ hsleeps
  have hshut := hsound.admits_read (Monitor.mem_parties_iff.mpr (.inr hwaits))
  obtain ⟨m, hstep, hlooks⟩ := hturn.step hsound
  have hwriter := Monitor.mem_parties_iff.mpr (hsound.waits_step hwaits hstep)
  refine ⟨?_, ?_⟩
  · intro r hin
    by_contra hout
    have hmid := not_readEntry_of_looks (hsound.step hstep) hwriter hlooks hin
    exact Monitor.not_readEntry_of_step hshut hstep ⟨hout, hmid⟩
  · simpa [Monitor.parties] using (parties_of_looks hlooks).mem_iff.mp hwriter

/-- From the moment at which a writer falls asleep until it gets the lock, nobody gets the lock for
    reading, and the writer does not lose its claim. -/
theorem TurnsBefore.writers_first (hrun : TurnsBefore w l next) (hsettled : Settled l)
    (hsleeps : (w, .write) ∈ l.sleepers) :
    Settled next ∧ (∀ r, (r, .read) ∈ next.holders → (r, .read) ∈ l.holders) ∧
      ((w, .write) ∈ next.holders ∨ (w, .write) ∈ next.sleepers) := by
  induction hrun with
  | refl => exact ⟨hsettled, fun r hin => hin, .inr hsleeps⟩
  | tail _ hstep ih =>
    obtain ⟨hmid, hkept, -⟩ := ih
    obtain ⟨hfirst, hstill⟩ := hstep.2.writers_first hmid.reachable.sound hstep.1
    exact ⟨hmid.tail hstep.2, fun r hin => hkept r (hfirst r hin), hstill⟩

/-- At every moment the counters are exact and each agent holds the lock once, a block is left by an
    exception just as it is left otherwise, and no reader gets the lock while a writer waits. This
    holds between actions and, in the monitor, between the looks of those that one action wakes. -/
theorem exact_and_writers_first :
    (∀ l, Settled l →
      l.Exact ∧ (l.holders.map (·.1)).Nodup ∧
      (∀ agent, l.act agent .raise = l.act agent .release) ∧
      ∀ w next, (w, .write) ∈ l.sleepers → TurnsBefore w l next →
        (∀ r, (r, .read) ∈ next.holders → (r, .read) ∈ l.holders) ∧
          ((w, .write) ∈ next.holders ∨ (w, .write) ∈ next.sleepers)) ∧
    ∀ m : Monitor, m.Reachable →
      m.lock.Exact ∧ (m.lock.holders.map (·.1)).Nodup ∧
      ∀ w next, m.Waits w → Monitor.Meanwhile w m next →
        (∀ r, ¬ m.ReadEntry next r) ∧ ((w, .write) ∈ next.lock.holders ∨ next.Waits w) := by
  refine ⟨?_, ?_⟩
  · intro l hsettled
    have hsound := hsettled.reachable.sound
    refine ⟨hsound.exact, hsound.holders_distinct, fun _ => rfl, ?_⟩
    intro w next hsleeps hrun
    exact (hrun.writers_first hsettled hsleeps).2
  · intro m hreach
    refine ⟨hreach.sound.exact, hreach.sound.holders_distinct, ?_⟩
    intro w next hwaits hrun
    exact hrun.writers_first hreach hwaits

/-- A reader holds the lock and a writer sleeps. When the reader leaves, the writer is let in before
    a second reader, even if that one comes between the wake-up of the writer and its look. -/
theorem exact_and_writers_first_queue :
    let queued : Lock :=
      { readers := 1, waitingWriters := 1, holders := [("a", .read)], sleepers := [("w", .write)] }
    let granted : Lock :=
      { writer := true, holders := [("w", .write)], sleepers := [("b", .read)] }
    Settled queued ∧ TurnsBefore "w" queued granted ∧
      Monitor.Meanwhile "w" ⟨queued, []⟩ ⟨granted, []⟩ ∧ queued.Exact ∧
      (∀ r, (r, .read) ∈ granted.holders → (r, .read) ∈ queued.holders) ∧
      ∀ r, ¬ Monitor.ReadEntry ⟨queued, []⟩ ⟨granted, []⟩ r := by
  intro queued granted
  have hsettled : Settled queued :=
    .tail (.tail .refl ⟨"a", .request .read, by simp [Legal], rfl⟩)
      ⟨"w", .request .write, by simp [Legal, act, request, admits, enter], rfl⟩
  have hsleeps : ("w", .write) ∈ queued.sleepers := .head _
  have hturns : TurnsBefore "w" queued granted :=
    .tail (.tail .refl ⟨hsleeps, "b", .request .read, by simp [Legal, queued], rfl⟩)
      ⟨.head _, "a", .release, .head _, rfl⟩
  have hwaits : Monitor.Waits ⟨queued, []⟩ "w" := .head _
  have hsteps : Monitor.Meanwhile "w" ⟨queued, []⟩ ⟨granted, []⟩ := by
    let woken : Monitor := Monitor.leave ⟨queued, []⟩ "a" .read
    let joined : Monitor := { woken with lock := woken.lock.request "b" .read }
    have hleave : Monitor.Step ⟨queued, []⟩ woken := .leave (.head _)
    have hrequest : Monitor.Step woken joined := .request .read (by decide)
    have hlook : Monitor.Look joined ⟨granted, []⟩ := .retry [] []
    exact .tail (.tail (.tail .refl ⟨hwaits, hleave⟩) ⟨.head _, hrequest⟩)
      ⟨.tail _ (.head _), .look hlook⟩
  obtain ⟨hexact, -, -, hfirst⟩ := exact_and_writers_first.1 queued hsettled
  obtain ⟨-, -, hentry⟩ := exact_and_writers_first.2 ⟨queued, []⟩ hsettled.reachable
  exact ⟨hsettled, hturns, hsteps, hexact, (hfirst "w" granted hsleeps hturns).1,
    (hentry "w" ⟨granted, []⟩ hwaits hsteps).1⟩

end Lock

end ImportCycles
