import Flotilla.Fleet.Task

/-!
# Callers

Requests that are sent outside of any job. A caller either holds a handle to a request that has
been sent, or sends the request itself when it is its turn; in the second case requests go on
being settled at least until it has learnt what its own came to.
-/

namespace Flotilla.Fleet

/-- Add a caller. -/
def addCaller (f : Fleet) (number : Nat) (c : Caller) : Fleet :=
  { f with callers := f.callers.set number c }.wake (.caller number)

/-- Send a request and leave a caller behind who waits for what it comes to. -/
def call (f : Fleet) (number : Nat) (request : Request) (timeout : Nat) :
    Except Fault Handle × Fleet :=
  match f.send request timeout with
  | (.error fault, f) => (.error fault, f)
  | (.ok handle, f) => (.ok handle, f.addCaller number ⟨.waiting handle.key, false⟩)

/-- Leave a caller behind who sends a request and waits for what it comes to. -/
def callLater (f : Fleet) (number : Nat) (request : Request) (timeout : Nat) : Fleet :=
  f.addCaller number ⟨.asking request timeout, true⟩

/-- A caller gives up: it leaves when it is its turn, whatever its request comes to until then. -/
def hangUp (f : Fleet) (number : Nat) : Fleet :=
  if f.callers.contains number then
    { f with callers := f.callers.modify number fun c => { c with stage := .leaving } }.wake
      (.caller number)
  else f

/-- From now on requests are settled only as long as a caller needs it. -/
def letGo (f : Fleet) : Fleet := { f with held := false }.releaseCorrelator

end Flotilla.Fleet
