import SegmentLog.Store.Append
import SegmentLog.Store.Discard
import SegmentLog.Store.Leftovers
import SegmentLog.Store.Durability

/-!
# The log

A log is a store with a worker in the background. It is opened without either a file or a worker;
once it is started, the worker keeps a spare segment ready, syncs what it is told to sync, and
once in an interval does both. Stopping ends the worker after the chores it was sent before,
syncs what was written, and removes the spare.

Starting is one step. Stopping is several: the worker is taken, the store is detached from it, it
is told to end, its end is awaited, and the use of the store ends.

* `start_of_started`, `isStarted_start` — starting twice is starting once;
* `settle_nil` — a log without waiting chores is settled.
-/

namespace SegmentLog

/-- A store and its worker. -/
structure Log where
  store : Store
  /-- The worker that was started and not stopped. -/
  worker : Option WorkerId := none
  /-- The workers that have not ended yet. -/
  alive : List WorkerId := []
  /-- How many workers were ever started. -/
  workers : Nat := 0
  deriving Inhabited

namespace Store

/-- Does a chore of a worker. Failures were reported where they happened. -/
def perform (s : Store) : Chore → Store
  | .stockSpare => s.stockSpare.2
  | .sync => (s.syncActive false).2
  | .finish => s

end Store

namespace Log

/-- Opens a log. The directory is made if it is missing, and the policy of the settings replaces
that of the monitor. The disk and the monitor are given back as well, because they may have
changed even where the log cannot be opened. -/
def onDirectory (settings : Settings) (now : UInt64) (disk : Disk) (monitor : Monitor) :
    Except LogError Log × Disk × Monitor :=
  match settings.check with
  | .error e => (.error e, disk, monitor)
  | .ok () =>
    match disk.makeDirectories settings.directory with
    | (.error e, disk) => (.error (.io (.disk e)), disk, monitor)
    | (.ok (), disk) =>
      let monitor := { monitor with policy := settings.policy }
      match Store.onDirectory settings now disk monitor with
      | .error e => (.error e, disk, monitor)
      | .ok store => (.ok { store }, disk, monitor)

/-- Whether the log is started. -/
def isStarted (l : Log) : Bool := l.worker.isSome

/-! ## The worker -/

/-- A worker takes the oldest chore sent to it and does it. -/
def workerStep (l : Log) (w : WorkerId) : Log :=
  if w ∈ l.alive then
    match l.store.mail.find? (·.1 == w) with
    | none => l
    | some (_, c) =>
      let store := { l.store with mail := l.store.mail.erase (w, c) }
      if c = .finish then { l with store, alive := l.alive.erase w }
      else { l with store := store.perform c }
  else l

/-- A worker whose interval is over syncs, and keeps a spare ready. -/
def tick (l : Log) (w : WorkerId) : Log :=
  if w ∈ l.alive then { l with store := (l.store.perform .sync).perform .stockSpare } else l

/-- The workers do every chore that was sent so far. -/
def settle (l : Log) : Log := l.store.mail.foldl (fun l m => l.workerStep m.1) l

/-! ## Starting and stopping -/

/-- Starts the worker, unless there is one. -/
def start (l : Log) : Log :=
  match l.worker with
  | some _ => l
  | none =>
    let w := l.workers
    let store := { l.store with attached := some w }
    { l with
      store := if store.settings.lookAhead then store.send .stockSpare else store
      worker := some w
      alive := l.alive ++ [w]
      workers := l.workers + 1 }

/-- Takes the worker out of the log, so that it is stopped only once. -/
def takeWorker (l : Log) : Option WorkerId × Log := (l.worker, { l with worker := none })

/-- Detaches the store from its worker. -/
def detach (l : Log) : Log := { l with store := { l.store with attached := none } }

/-- Tells a worker to end. -/
def dismiss (l : Log) (w : WorkerId) : Log :=
  { l with store := { l.store with mail := l.store.mail ++ [(w, .finish)] } }

/-- Ends a worker that was taken out of the log, after what it was told to do before. -/
def endWorker (l : Log) : Option WorkerId → Log
  | none => l
  | some w => (l.detach.dismiss w).settle

/-- Stops the worker and syncs what was written. -/
def stop (l : Log) : Except LogError Unit × Log :=
  let (w, l) := l.takeWorker
  let l := l.endWorker w
  match l.store.finish with
  | (r, store) => (r, { l with store })

/-- Gives a log up: its worker ends, and its files stay as they are. -/
def drop (l : Log) : Log :=
  let (w, l) := l.takeWorker
  l.endWorker w

theorem start_of_started {l : Log} (h : l.isStarted = true) : l.start = l := by
  cases hw : l.worker with
  | none => simp [isStarted, hw] at h
  | some w => simp [start, hw]

theorem isStarted_start (l : Log) : l.start.isStarted = true := by
  cases hw : l.worker <;> simp [start, hw, isStarted]

theorem settle_nil {l : Log} (h : l.store.mail = []) : l.settle = l := by
  simp [settle, h]

end Log

end SegmentLog
