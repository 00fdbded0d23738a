import SegmentLog.Inspection.Arguments
import SegmentLog.Replay.Basic
import SegmentLog.Segment.Listing
import SegmentLog.Text.Column
import SegmentLog.Text.Hex

/-!
# Reports of the inspection tool

What the tool prints about segment files: a table of those in a directory, the records of some
files, or the outcome of a replay of a directory into nothing. A report may end early because of
an error; the lines before that stand.

* `dumpEach_cons_of_error` — a file whose name is no segment name ends the report on records.
-/

namespace SegmentLog.Inspection

/-- The lines of a report, and the error that ended it, if one did. -/
structure Report where
  lines : List String
  error : Option LogError := none
  deriving DecidableEq, Repr

/-! ## The table of a directory -/

/-- One row of the table. -/
def row (id version bytes file : String) : String :=
  Text.alignLeft 24 id ++ " " ++ Text.alignRight 8 version ++ " " ++ Text.alignRight 12 bytes ++
    "  " ++ file

/-- The rows for some segment files. -/
def rows (d : Disk) : List (SegmentName × Path) → Report
  | [] => ⟨[], none⟩
  | (name, path) :: rest =>
    match d.size path with
    | .error e => ⟨[], some (.io (.disk e))⟩
    | .ok size =>
      let more := rows d rest
      { more with
        lines := row (toString name.id) (toString name.version) (toString size) path.display ::
          more.lines }

/-- The segment files of a directory, oldest first. -/
def list (d : Disk) (stem : String) (directory : Path) : Report :=
  match segmentFiles d directory stem with
  | .error e => ⟨[], some (.io (.disk e))⟩
  | .ok [] => ⟨["no segments in " ++ directory.display], none⟩
  | .ok found =>
    let table := rows d found
    { table with lines := row "id" "version" "bytes" "file" :: table.lines }

/-! ## The records of files -/

/-- How much of a payload is shown. -/
def previewLength : Nat := 16

/-- The line for one record. -/
def recordLine (p : Position) (payload : Bytes) : String :=
  "  " ++ Text.alignRight 10 (toString p.offset) ++ "  " ++
    Text.alignRight 8 (toString payload.length) ++ " bytes  " ++
    Text.hex (payload.take previewLength)

/-- A target that prints what is replayed into it. -/
def printer : Target (List String) :=
  .total fun p payload lines => lines ++ [recordLine p payload]

/-- The line above the records of a file. -/
def fileLine (name : SegmentName) (path : Path) : String :=
  path.display ++ s!" (id {name.id}, version {name.version})"

/-- The line below the records of a file. -/
def stopLine (f : FileReport) : String :=
  s!"  {f.applied} records, stopped at offset {f.stop} (" ++ f.tail.display ++ ")"

/-- The records of some files, one file after the other, printed after what was printed so
far. -/
def dumpEach (d : Disk) (stem : String) : List Path → Progress (List String) → Report
  | [], p => ⟨p.state, none⟩
  | path :: rest, p =>
    match SegmentName.ofPath stem path with
    | .error e => ⟨p.state, some e⟩
    | .ok name =>
      let p := { p with state := p.state ++ [fileLine name path] }
      match ({ stem } : Replay).file printer d name path p with
      | (.error e, p) => ⟨p.state, some e⟩
      | (.ok f, p) => dumpEach d stem rest { p with state := p.state ++ [stopLine f] }

/-- The records of some segment files, in the order in which they are named. The version of a
file is not looked at. -/
def dump (d : Disk) (stem : String) (files : List Path) : Report :=
  dumpEach d stem files { state := [] }

/-! ## The outcome of a replay -/

/-- A target that adds up the lengths of what is replayed into it. -/
def counter : Target Nat := .total fun _ payload bytes => bytes + payload.length

/-- The line for a file whose replay stopped at a damaged or unfinished frame. -/
def incompleteLine (f : FileReport) : String :=
  "  " ++ f.path.display ++ s!" at offset {f.stop} (" ++ f.tail.display ++ ")"

/-- The lines for the outcome of a replay in which so many bytes were applied. -/
def outcomeLines (r : ReplayReport) (bytes : Nat) : List String :=
  [s!"segments:          {r.fileCount}",
   s!"records:           {r.applied}",
   s!"payload bytes:     {bytes}",
   s!"incomplete tails:  {r.cutShort}"] ++
  (r.files.filter fun f => f.tail.isCutShort).map incompleteLine ++
  ["last position:     " ++
    match r.last with
    | some p => p.display
    | none => "none"]

/-- The outcome of a replay of a directory. -/
def verify (d : Disk) (stem : String) (directory : Path) : Report :=
  match segmentFiles d directory stem with
  | .error e => ⟨[], some (.io (.disk e))⟩
  | .ok found =>
    match ({ stem } : Replay).run counter d (found.map (·.2)) 0 with
    | (.error e, _) => ⟨[], some e⟩
    | (.ok r, bytes) => ⟨outcomeLines r bytes, none⟩

/-! ## A call of the tool -/

/-- The report that a command asks for. -/
def report (d : Disk) (stem : String) : Command → Report
  | .list directory => list d stem directory
  | .dump files => dump d stem files
  | .verify directory => verify d stem directory

/-- The name of the tool. -/
def toolName : String := "atlaslog-inspect"

/-- The version of the tool. -/
def version : String := "0.1.0"

/-- What the tool says about its use. -/
def usage : List String :=
  ["Inspect commit log segment files",
   "",
   "Usage: " ++ toolName ++ " [OPTIONS] <COMMAND>",
   "",
   "Commands:",
   "  list    List segment files in a directory, oldest first",
   "  dump    Print every record of the given segment files",
   "  verify  Replay a directory without applying anything and report",
   "  help    Print this message or the help of the given subcommand(s)",
   "",
   "Options:",
   "  -p, --prefix <PREFIX>  Segment file name prefix [default: " ++ defaultStem ++ "]",
   "  -h, --help             Print help",
   "  -V, --version          Print version"]

/-- How a call of the tool ends: its status, what it prints, and what it complains about. -/
structure Ending where
  status : Nat
  lines : List String := []
  complaint : Option String := none
  deriving DecidableEq, Repr

/-- Carries out a call of the tool on a disk. -/
def run (args : List String) (d : Disk) : Ending :=
  match read args with
  | .error e => { status := 2, complaint := some e.message }
  | .ok .version => { status := 0, lines := [toolName ++ " " ++ version] }
  | .ok .help => { status := 0, lines := usage }
  | .ok (.run stem c) =>
    let r := report d stem c
    match r.error with
    | none => { status := 0, lines := r.lines }
    | some e => { status := 1, lines := r.lines, complaint := some e.message }

theorem dumpEach_nil (d : Disk) (stem : String) (p : Progress (List String)) :
    dumpEach d stem [] p = ⟨p.state, none⟩ := rfl

/-- A file whose name is no segment name ends the report. -/
theorem dumpEach_cons_of_error {d : Disk} {stem : String} {path : Path} {e : LogError}
    (h : SegmentName.ofPath stem path = .error e) (rest : List Path)
    (p : Progress (List String)) : dumpEach d stem (path :: rest) p = ⟨p.state, some e⟩ := by
  simp only [dumpEach, h]

end SegmentLog.Inspection
