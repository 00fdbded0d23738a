import SegmentLog.Segment.Basic
import SegmentLog.Segment.Listing
import SegmentLog.Settings

/-!
# The store of a log

A store keeps the segments of one log on a disk: the active ones, oldest first, of which the last
takes in what is appended, and a spare that is kept ready to follow it. Every segment that the
store ever created stays in its table and is known by its handle, so that work on a segment can
go on after the segment has left the active ones.

The disk under the store and the monitor beside it are part of its state, because every operation
may change them. What the store does at a time when nothing else can run is one function; an
operation in which others may run in between is split there into several.

* `segment_modify`, `active_modify` — a change to one segment leaves the others and their order
  alone.
-/

namespace SegmentLog

/-- A segment of a store: its number in the order of creation. -/
abbrev Handle := Nat

/-- A worker in the background: its number in the order of start. -/
abbrev WorkerId := Nat

/-- What a worker is told to do. -/
inductive Chore where
  /-- Keep a spare segment ready. -/
  | stockSpare
  /-- Bring what was written to stable storage. -/
  | sync
  /-- End. -/
  | finish
  deriving DecidableEq, Repr

/-- The segments of one log, with the disk under them and the monitor beside them. -/
structure Store where
  settings : Settings
  ids : IdSource
  /-- Every segment that was created, by its handle. -/
  table : Array Segment := #[]
  /-- The segments that hold the log, oldest first. -/
  active : List Handle := []
  /-- An empty segment that is ready to become the last one. -/
  spare : Option Handle := none
  /-- The worker that does the chores of the store. -/
  attached : Option WorkerId := none
  /-- The chores that were sent and not yet taken, oldest first. -/
  mail : List (WorkerId × Chore) := []
  disk : Disk
  monitor : Monitor
  deriving Inhabited

namespace Store

/-- The segment of a handle. -/
def segment (s : Store) (h : Handle) : Segment := s.table.getD h default

/-- Changes the segment of a handle. -/
def modify (s : Store) (h : Handle) (f : Segment → Segment) : Store :=
  { s with table := s.table.modify h f }

/-- The last active segment. -/
def tail? (s : Store) : Option Handle := s.active.getLast?

/-- The number of the last active segment; zero, which comes before every other, if there is
none. -/
def tailId (s : Store) : SegmentId :=
  match s.tail? with
  | some h => (s.segment h).id
  | none => 0

/-- Where the next record would be. -/
def position (s : Store) : Position :=
  match s.tail? with
  | some h => (s.segment h).position
  | none => .start

/-- The active segments, oldest first. -/
def activeSegments (s : Store) : List Segment := s.active.map s.segment

/-- Whether a path is the file of an active segment or of the spare. -/
def owns (s : Store) (p : Path) : Bool :=
  (s.active ++ s.spare.toList).any fun h => (s.segment h).path.same p

/-- The largest payload that can be appended. -/
def maxPayload (s : Store) : Nat := s.settings.maxPayload

/-- Keeps the numbers of later segments above a number that is already on the disk. -/
def keepIdsAbove (s : Store) (id : SegmentId) : Store := { s with ids := s.ids.keepAbove id }

/-- Reports a failure to the monitor, and gives it to the caller as well. -/
def report (s : Store) (cause : IoError) : LogError × Store :=
  (.io cause, { s with monitor := s.monitor.report })

/-- Sends a chore to the worker, if one is attached. -/
def send (s : Store) (c : Chore) : Store :=
  match s.attached with
  | some w => { s with mail := s.mail ++ [(w, c)] }
  | none => s

/-- Stops a segment from taking in more. Records that were claimed before may still reach it,
later ones go elsewhere. -/
def sealOff (s : Store) (h : Handle) : Store := s.modify h Segment.sealOff

/-- Opens a store on a directory, at a time given in milliseconds. No file is created; the
segment files that are there only keep the numbers of new segments above theirs. -/
def onDirectory (settings : Settings) (now : UInt64) (disk : Disk) (monitor : Monitor) :
    Except LogError Store :=
  let fresh : Store := { settings, ids := .ofClock now, disk, monitor }
  if disk.isDirectory settings.directory then
    match segmentFiles disk settings.directory settings.stem with
    | .error e => .error (.io (.disk e))
    | .ok found => .ok (found.foldl (fun s e => s.keepIdsAbove e.1.id) fresh)
  else .ok fresh

theorem segment_modify (s : Store) (h k : Handle) (f : Segment → Segment)
    (hk : k < s.table.size) :
    (s.modify h f).segment k = if h = k then f (s.segment k) else s.segment k := by
  simp only [segment, modify, Array.getD_eq_getD_getElem?, Array.getElem?_modify]
  split
  · simp [Array.getElem?_eq_getElem hk]
  · rfl

theorem active_modify (s : Store) (h : Handle) (f : Segment → Segment) :
    (s.modify h f).active = s.active := rfl

end Store

end SegmentLog
