import ImportCycles.Graph.Basic

namespace ImportCycles

namespace Graph

/-- Walk from one unit and claim every cycle met. -/
def auditFrom (g : Graph) (root : String) : Graph :=
  let found := Walk.cyclesFrom g.dependencies g.findings.knownCyclers.items root
  { g with findings := found.foldl Findings.claim g.findings }

/-- Walk from the given units, one after another. -/
def auditInOrder (g : Graph) (roots : List String) : Graph :=
  roots.foldl auditFrom g

/-- Walk from every depender, in sorted order. The walks share the known cyclers: none enters a unit
    that an earlier one found to close a cycle. -/
def audit (g : Graph) : Graph :=
  g.auditInOrder g.dependerUnits

/-- Whether no cycle is recorded. After an audit this says that the graph has none. -/
def allClear (g : Graph) : Bool :=
  g.cycles.isEmpty

/-- Why an audit is not made. -/
inductive AuditFault where
  /-- There is a walk to make, and nobody to make it. -/
  | noWorkers
  deriving Repr, DecidableEq

/-- The audit by some number of workers; if no number is given there are enough. -/
def auditBy (g : Graph) (workers : Option Int) : Except AuditFault Graph :=
  if !g.dependerUnits.isEmpty && workers.any (· < 1) then .error .noWorkers else .ok g.audit

end Graph

end ImportCycles
