import Flotilla.Link
import Flotilla.Rehearsal

/-!
# The command line

Without arguments a rollout is rehearsed on a simulated fleet. With the address of a gateway the
rollout would go to the devices behind it; no stream to another host can be opened here, so the
link is refused.
-/

namespace Flotilla

/-- Print a fault and fail. -/
def failWith (reason : String) : IO UInt32 := do
  IO.eprintln ("Error: " ++ reason)
  pure 1

/-- Rehearse a rollout and print what becomes of it. -/
def rehearse : IO UInt32 := do
  match Rehearsal.report with
  | .ok lines =>
    lines.forM fun line => IO.println line
    pure 0
  | .error fault => failWith fault.message

/-- Make a link to a gateway. -/
def reachGateway (address : String) : IO UInt32 := do
  match (Link.connect address (some "no stream to another host") : Except Fault (Link Unit)) with
  | .ok _ => pure 0
  | .error fault => failWith fault.message

end Flotilla

/-- Run the command line. -/
def main (args : List String) : IO UInt32 :=
  match args with
  | [] => Flotilla.rehearse
  | address :: _ => Flotilla.reachGateway address
