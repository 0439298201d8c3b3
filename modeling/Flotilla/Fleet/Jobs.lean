import Flotilla.Fleet

/-!
# Jobs of a fleet

Jobs are submitted, looked at, awaited and stopped. A job that is tracked answers with its
snapshot; once its terminal state is recorded it is no longer tracked, and only the store knows
about it.
-/

namespace Flotilla.Fleet

/-- What is known of a job that is tracked. -/
def tracked? (f : Fleet) (job : JobId) : Option JobEntry :=
  (f.jobs.get? job).filter fun e => !e.archived

/-- Read a key of the store. -/
def read (f : Fleet) (key : String) : Except Fault (Option Record) × Fleet :=
  let (result, store) := f.transactions.store.read key
  (result, { f with transactions := { f.transactions with store } })

/-- The records whose keys start with `start`. -/
def scan (f : Fleet) (start : String) : Except Fault (List (String × Record)) × Fleet :=
  let (result, store) := f.transactions.store.scan start
  (result, { f with transactions := { f.transactions with store } })

/-- Commit straight to the store, past its outages. -/
def writeBehind (f : Fleet) (writes : List Write) (reads : Table String (Option Nat)) :
    Except Fault Unit × Fleet :=
  let (result, store) := f.transactions.store.commitBehind writes reads
  (result, { f with transactions := { f.transactions with store } })

/-- The job that the bytes of a record describe. -/
def decodeJob (value : Bytes) : Except Fault Job :=
  match JobRecord.ofBytes? value with
  | some record => .ok (Job.ofRecord record)
  | none => .error (.codec .malformed)

/-- A job as the store has it. -/
def persisted (f : Fleet) (job : JobId) : Except Fault (Option Job) × Fleet :=
  match f.read (Job.key job) with
  | (.error fault, f) => (.error fault, f)
  | (.ok none, f) => (.ok none, f)
  | (.ok (some record), f) => ((decodeJob record.value).map some, f)

/-- Submit a job: its record is committed and a worker takes it on. A job whose record is refused
uses up its number. -/
def submit (f : Fleet) (target : String) (steps : List JobStep) : Except Fault JobId × Fleet :=
  let id := UInt64.ofNat (f.submitted + 1)
  let f := { f with submitted := f.submitted + 1 }
  match f.persist (Job.new id target steps f.nowMs) with
  | (.error fault, _, f) => (.error fault, f)
  | (.ok (), job, f) =>
    (.ok id, { f with jobs := f.jobs.set id (.new job) }.wake (.worker id))

/-- Ask a job to stop. Only a job that runs can be stopped; one that has been asked already goes
on stopping. -/
def stop (f : Fleet) (job : JobId) : Except Fault Unit × Fleet :=
  match f.tracked? job with
  | none =>
    match f.persisted job with
    | (.error fault, f) => (.error fault, f)
    | (.ok (some j), f) => (.error (.jobNotRunning job j.state), f)
    | (.ok none, f) => (.error (.jobNotFound job), f)
  | some e =>
    match e.phase with
    | .running =>
      let f := f.modifyJob job fun e => { e with phase := .stopRequested, stop := true }
      (.ok (), if e.heedsStop then f.wake (.worker job) else f)
    | .stopRequested => (.ok (), f)
    | .queued | .finished => (.error (.jobNotRunning job e.snapshot.state), f)

/-- The last recorded state of a job. -/
def status (f : Fleet) (job : JobId) : Except Fault Job × Fleet :=
  match f.tracked? job with
  | some e => (.ok e.snapshot, f)
  | none =>
    match f.persisted job with
    | (.error fault, f) => (.error fault, f)
    | (.ok (some j), f) => (.ok j, f)
    | (.ok none, f) => (.error (.jobNotFound job), f)

/-- What somebody learns who waits for a job that is not tracked: its end, if the store has it. -/
def archivedEnd (f : Fleet) (job : JobId) : Except Fault Job × Fleet :=
  match f.persisted job with
  | (.error fault, f) => (.error fault, f)
  | (.ok (some j), f) => (if j.isTerminal then .ok j else .error (.jobNotFound job), f)
  | (.ok none, f) => (.error (.jobNotFound job), f)

/-- What somebody learns who waited for a job until its worker left: its end, or that none could
be recorded. -/
def trackedEnd (e : JobEntry) : Except Fault Job :=
  if e.snapshot.isTerminal then .ok e.snapshot
  else .error (.commitFailure ("job " ++ Text.decimal e.snapshot.id.toNat ++
    " ended without a committed terminal state (last committed: " ++ e.snapshot.state.name ++
    ")"))

/-- Jobs by their numbers: those of records and, in their stead, the snapshots of those tracked. -/
def overlay (f : Fleet) (stored : List Job) : List Job :=
  let tracked := (f.jobs.values.filter fun e => !e.archived).map JobEntry.snapshot
  let byId : Table JobId Job := Table.ofList ((stored ++ tracked).map fun j => (j.id, j))
  byId.values.mergeSort fun a b => a.id ≤ b.id

/-- All jobs that are known, in the order of their numbers. -/
def list (f : Fleet) : Except Fault (List Job) × Fleet :=
  match f.scan Job.keyRoot with
  | (.error fault, f) => (.error fault, f)
  | (.ok records, f) =>
    ((records.mapM fun r => decodeJob r.2.value).map f.overlay, f)

end Flotilla.Fleet
