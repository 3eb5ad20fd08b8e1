import ImportCycles.Sorted

namespace ImportCycles

inductive Access where
  | read
  | write
  deriving Repr, DecidableEq

/-- A lock that prefers writers, by its counters and by who holds it or sleeps before it. A reader
    enters when no writer holds the lock or waits for it, a writer when nobody holds it. -/
structure Lock where
  readers : Nat := 0
  writer : Bool := false
  waitingWriters : Nat := 0
  holders : List (String × Access) := []
  sleepers : List (String × Access) := []
  deriving Repr, DecidableEq

namespace Lock

inductive Action where
  | request (access : Access)
  | release
  | raise
  deriving Repr, DecidableEq

/-- Whether the counters let an agent in. -/
def admits (l : Lock) : Access → Bool
  | .read => !l.writer && l.waitingWriters == 0
  | .write => !l.writer && l.readers == 0

def enter (l : Lock) (agent : String) (access : Access) : Lock :=
  let l := { l with holders := l.holders ++ [(agent, access)] }
  match access with
  | .read => { l with readers := l.readers + 1 }
  | .write => { l with writer := true }

/-- A new request: the agent enters or falls asleep. A sleeping writer is counted, which keeps new
    readers out. -/
def request (l : Lock) (agent : String) (access : Access) : Lock :=
  if l.admits access then
    l.enter agent access
  else
    let l := { l with sleepers := l.sleepers ++ [(agent, access)] }
    match access with
    | .read => l
    | .write => { l with waitingWriters := l.waitingWriters + 1 }

/-- A sleeper looks again: it enters or goes on sleeping. -/
def retry (l : Lock) (agent : String) (access : Access) : Lock :=
  if l.admits access then
    let l := l.enter agent access
    match access with
    | .read => l
    | .write => { l with waitingWriters := l.waitingWriters - 1 }
  else
    { l with sleepers := l.sleepers ++ [(agent, access)] }

/-- Every sleeper looks again, in the order in which they fell asleep. -/
def wakeAll (l : Lock) : Lock :=
  l.sleepers.foldl (fun l (agent, access) => l.retry agent access) { l with sleepers := [] }

/-- An agent leaves. The last reader and the writer wake the sleepers. -/
def leave (l : Lock) (agent : String) : Lock :=
  match l.holders.lookup agent with
  | none => l
  | some .read =>
    let l := { l with readers := l.readers - 1, holders := l.holders.erase (agent, .read) }
    if l.readers = 0 then l.wakeAll else l
  | some .write =>
    { l with writer := false, holders := l.holders.erase (agent, .write) }.wakeAll

/-- The lock after an action has settled: each agent holds the lock or sleeps. -/
def act (l : Lock) (agent : String) : Action → Lock
  | .request access => l.request agent access
  | .release => l.leave agent
  | .raise => l.leave agent

/-- The agents that hold the lock, sorted. -/
def holding (l : Lock) : List String :=
  sortNames (l.holders.map (·.1))

/-- The agents that sleep before the lock, sorted. -/
def waiting (l : Lock) : List String :=
  sortNames (l.sleepers.map (·.1))

end Lock

end ImportCycles
