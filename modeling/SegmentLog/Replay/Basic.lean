import SegmentLog.Disk.Basic
import SegmentLog.Frame.Reading
import SegmentLog.Replay.Target

/-!
# Replay

After a restart the segment files of the last run are replayed into a target: each record of each
file, in the order of the segments. A replay may have a floor; records before it, and segments
that lie before it as a whole, are passed over.

All names are checked before the first record is applied. Damage at the end of a file ends the
replay of that file only; what ends the whole replay is a file that cannot be read, or a target
that refuses. Each record is applied before the next one is read, so that a target has taken in
what a file gave before it could not be read any further.

`Replay.file` replays one file and `Replay.run` replays many.

* `fileFrom_frame`, `fileFrom_stop`, `fileFrom_unreadable` — how the replay of a file goes on.
-/

namespace SegmentLog

/-- What is replayed: the segment files of a stem, from a floor on. -/
structure Replay where
  stem : String := defaultStem
  floor : Position := .start
  deriving DecidableEq, Repr

/-- What became of one file. -/
structure FileReport where
  name : SegmentName
  path : Path
  applied : Nat
  passed : Nat
  tail : Tail
  /-- The offset where the replay of the file stopped. -/
  stop : Nat
  deriving DecidableEq, Repr

/-- What became of a replay. -/
structure ReplayReport where
  /-- How many files were replayed. -/
  fileCount : Nat := 0
  /-- How many files were passed over because they lie before the floor. -/
  filesPassed : Nat := 0
  /-- How many records were applied. -/
  applied : Nat := 0
  /-- How many records were passed over because they lie before the floor. -/
  passed : Nat := 0
  /-- How many files ended in a damaged or unfinished frame. -/
  cutShort : Nat := 0
  /-- The position of the last record that was applied. -/
  last : Option Position := none
  /-- The highest number of a segment, replayed or passed over. -/
  maxId : Option SegmentId := none
  /-- The files that were replayed, in order. -/
  files : List FileReport := []
  deriving DecidableEq, Repr, Inhabited

/-- Adds a file that was replayed to a report. -/
def ReplayReport.add (report : ReplayReport) (f : FileReport) : ReplayReport :=
  { report with
    fileCount := report.fileCount + 1
    applied := report.applied + f.applied
    passed := report.passed + f.passed
    cutShort := if f.tail.isCutShort then report.cutShort + 1 else report.cutShort
    files := report.files ++ [f] }

/-- A replay under way: the state of the target, the last record it took in, and the count of
records applied and passed over in the file at hand. -/
structure Progress (σ : Type) where
  state : σ
  last : Option Position := none
  applied : Nat := 0
  passed : Nat := 0

namespace Replay

variable {σ : Type}

/-- Hands a record to a target, unless it lies before the floor. -/
def hand (r : Replay) (target : Target σ) (position : Position) (payload : Bytes)
    (p : Progress σ) : Except LogError Unit × Progress σ :=
  if position < r.floor then (.ok (), { p with passed := p.passed + 1 })
  else
    match target.apply position payload p.state with
    | (.error reason, s) => (.error (.refused position reason), { p with state := s })
    | (.ok (), s) =>
      (.ok (), { p with state := s, last := some position, applied := p.applied + 1 })

/-- Replays a segment file of so many bytes from an offset on. Says why and where the reading
stopped. -/
def fileFrom (r : Replay) (target : Target σ) (path : Path) (segment : SegmentId)
    (size offset : Nat) (reader : Reader) (p : Progress σ) :
    Except LogError (Tail × Nat) × Progress σ :=
  match _h : Frame.readNext (size - (offset + Frame.overhead)) reader with
  | .error cause => (.error (.unreadable path cause), p)
  | .ok (.stop tail, _) => (.ok (tail, offset), p)
  | .ok (.frame payload, rest) =>
    match r.hand target ⟨segment, offset⟩ payload p with
    | (.error e, p) => (.error e, p)
    | (.ok (), p) =>
      r.fileFrom target path segment size (offset + Frame.overhead + payload.length) rest p
termination_by reader.stored
decreasing_by
  have := Frame.stored_readNext _h
  simp only [Frame.overhead] at this
  omega

/-- Replays one segment file. -/
def file (r : Replay) (target : Target σ) (d : Disk) (name : SegmentName) (path : Path)
    (p : Progress σ) : Except LogError FileReport × Progress σ :=
  let p := { p with applied := 0, passed := 0 }
  match d.opened path with
  | .error cause => (.error (.unreadable path cause), p)
  | .ok (size, reader) =>
    match r.fileFrom target path name.id size 0 reader p with
    | (.error e, p) => (.error e, p)
    | (.ok (tail, stop), p) =>
      (.ok { name, path, applied := p.applied, passed := p.passed, tail, stop }, p)

/-- Replays segment files in the given order, and adds them to a report. -/
def files (r : Replay) (target : Target σ) (d : Disk) :
    List (SegmentName × Path) → ReplayReport → Progress σ →
      Except LogError ReplayReport × Progress σ
  | [], report, p => (.ok { report with last := p.last }, p)
  | (name, path) :: more, report, p =>
    let report := { report with maxId := some (max (report.maxId.getD 0) name.id) }
    if name.id < r.floor.segment then
      r.files target d more { report with filesPassed := report.filesPassed + 1 } p
    else
      match r.file target d name path p with
      | (.error e, p) => (.error e, p)
      | (.ok f, p) => r.files target d more (report.add f) p

/-- The names of segment files, if all of them are segment names of a version that can be
replayed. -/
def names (r : Replay) : List Path → Except LogError (List (SegmentName × Path))
  | [] => .ok []
  | path :: more =>
    match SegmentName.ofPath r.stem path with
    | .error e => .error e
    | .ok name =>
      match name.requireSupported with
      | .error e => .error e
      | .ok () =>
        match r.names more with
        | .error e => .error e
        | .ok rest => .ok ((name, path) :: rest)

/-- Replays segment files by number, then by version, whatever order they are given in, and lets
the target flush after the last one. -/
def run (r : Replay) (target : Target σ) (d : Disk) (paths : List Path) (state : σ) :
    Except LogError ReplayReport × σ :=
  match r.names paths with
  | .error e => (.error e, state)
  | .ok named =>
    match r.files target d (named.mergeSort fun a b => a.1.precedes b.1) {} { state } with
    | (.error e, p) => (.error e, p.state)
    | (.ok report, p) =>
      match target.flush p.state with
      | (.error reason, s) => (.error (.refused (report.last.getD .start) reason), s)
      | (.ok (), s) => (.ok report, s)

/-- A file that cannot be read any further ends the replay. -/
theorem fileFrom_unreadable (r : Replay) (target : Target σ) (path : Path) (segment : SegmentId)
    {size offset : Nat} {reader : Reader} {cause : DiskError} (p : Progress σ)
    (h : Frame.readNext (size - (offset + Frame.overhead)) reader = .error cause) :
    r.fileFrom target path segment size offset reader p =
      (.error (.unreadable path cause), p) := by
  rw [fileFrom]
  split <;> simp_all

/-- Where there is no frame, the replay of the file stops. -/
theorem fileFrom_stop (r : Replay) (target : Target σ) (path : Path) (segment : SegmentId)
    {size offset : Nat} {reader rest : Reader} {tail : Tail} (p : Progress σ)
    (h : Frame.readNext (size - (offset + Frame.overhead)) reader = .ok (.stop tail, rest)) :
    r.fileFrom target path segment size offset reader p = (.ok (tail, offset), p) := by
  rw [fileFrom]
  split <;> simp_all

/-- A record is handed to the target before the next one is read. -/
theorem fileFrom_frame (r : Replay) (target : Target σ) (path : Path) (segment : SegmentId)
    {size offset : Nat} {reader rest : Reader} {payload : Bytes} (p : Progress σ)
    (h : Frame.readNext (size - (offset + Frame.overhead)) reader = .ok (.frame payload, rest)) :
    r.fileFrom target path segment size offset reader p =
      match r.hand target ⟨segment, offset⟩ payload p with
      | (.error e, p) => (.error e, p)
      | (.ok (), p) =>
        r.fileFrom target path segment size (offset + Frame.overhead + payload.length) rest p := by
  rw [fileFrom]
  split <;> simp_all

end Replay

end SegmentLog
