import Flotilla.Fault

/-!
# Permits

A fixed number of permits for jobs to run. A job that finds none free stands in line, and a
permit that is given back goes to the first in line, who only has to collect it.
-/

namespace Flotilla

/-- Who may run and who stands in line. -/
structure Permits where
  /-- Permits that nobody has. -/
  free : Nat
  /-- Jobs that stand in line, the first in front. -/
  line : List JobId
  /-- Jobs that have been given a permit and have not collected it yet. -/
  granted : List JobId
  deriving DecidableEq, Repr

namespace Permits

/-- Permits that nobody has taken yet. -/
def new (n : Nat) : Permits := ⟨n, [], []⟩

/-- Ask for a permit: says whether the job has one now; otherwise it stands in line. -/
def acquire (p : Permits) (job : JobId) : Bool × Permits :=
  if job ∈ p.granted then (true, { p with granted := p.granted.erase job })
  else if job ∈ p.line then (false, p)
  else if p.free = 0 then (false, { p with line := p.line ++ [job] })
  else (true, { p with free := p.free - 1 })

/-- Give a permit back; returns the job that is given it. -/
def release (p : Permits) : Option JobId × Permits :=
  match p.line with
  | [] => (none, { p with free := p.free + 1 })
  | job :: line => (some job, { p with line, granted := p.granted ++ [job] })

end Permits

end Flotilla
