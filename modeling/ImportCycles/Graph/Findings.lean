import ImportCycles.FirstKept
import ImportCycles.Rotation

namespace ImportCycles

/-- The results of all audits so far: the units known to close a cycle, one cycle of each rotation
    class, and the texts of those cycles. -/
structure Findings where
  knownCyclers : FirstKept (fun unit : String => unit) := {}
  claims : FirstKept Rotation.key := {}
  traces : FirstKept (fun trace : String => trace) := {}
  deriving Repr

namespace Findings

/-- Take in a cycle that starts and ends at the unit that closed it. The unit is known from now on,
    and the cycle is claimed unless a rotation of it is. -/
def claim (f : Findings) (cycle : List String) : Findings :=
  let knownCyclers := match cycle with
    | [] => f.knownCyclers
    | offender :: _ => f.knownCyclers.insert offender
  match f.claims.add cycle with
  | (false, _) => { f with knownCyclers }
  | (true, claims) =>
    { knownCyclers, claims, traces := f.traces.insert (Route.join cycle) }

end Findings

end ImportCycles
