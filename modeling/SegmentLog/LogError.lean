import SegmentLog.Disk.Basic
import SegmentLog.Segment.Name

/-!
# Errors

What can go wrong with a log, by cause. The wording of every error is in `LogError.message`.
-/

namespace SegmentLog

/-- Why a file could not be created, written, read, synced or removed. -/
inductive IoError where
  /-- The disk refused. -/
  | disk (cause : DiskError)
  /-- A mutation was written out with another length than it had declared. -/
  | wrongLength (declared written : Nat)
  /-- A segment that was chosen for its room had none. -/
  | noRoom (length : Nat) (segment : SegmentId)
  deriving DecidableEq, Repr

/-- The wording of a cause. -/
def IoError.text : IoError → String
  | .disk cause => cause.text
  | .wrongLength declared written =>
    s!"mutation declared {declared} bytes but serialized {written}"
  | .noRoom length segment => s!"{length} bytes do not fit segment {segment}"

/-- Why settings are refused. -/
inductive SettingsError where
  | segmentTooSmall (size minimum : Nat)
  | segmentTooLarge (size : Nat)
  | badStem (stem : String)
  | zeroInterval
  | unknownPolicy (word : String)
  deriving DecidableEq, Repr

/-- The wording of a refusal. -/
def SettingsError.text : SettingsError → String
  | .segmentTooSmall size minimum =>
    s!"segment_size {size} is below the minimum of {minimum} bytes"
  | .segmentTooLarge size => s!"segment_size {size} exceeds the frame size limit"
  | .badStem stem =>
    "file_prefix " ++ Text.quoted stem ++ " must be non-empty and must not contain '-'"
  | .zeroInterval => "periodic sync interval must be greater than zero"
  | .unknownPolicy word => "unknown commit failure policy: " ++ word

/-- What can go wrong with a log. -/
inductive LogError where
  | io (cause : IoError)
  | recordTooLarge (size max : Nat)
  | emptyRecord
  | invalidName (name : String)
  | unsupportedVersion (version max : UInt32)
  | unreadable (path : Path) (cause : DiskError)
  /-- The target of a replay refused a record, or could not flush. -/
  | refused (position : Position) (reason : String)
  | settings (cause : SettingsError)
  deriving DecidableEq, Repr

namespace LogError

/-- The wording of a failed call. -/
def ioMessage (text : String) : String := "IO error: " ++ text

/-- The wording of a segment file that cannot be read. -/
def unreadableMessage (path : Path) (text : String) : String :=
  "Cannot read commit log segment " ++ path.display ++ ": " ++ text

/-- The wording of settings that are refused. -/
def settingsMessage (text : String) : String := "Configuration error: " ++ text

/-- The wording of an error. -/
def message : LogError → String
  | .io cause => ioMessage cause.text
  | .recordTooLarge size max => s!"Record too large: {size} bytes (max {max})"
  | .emptyRecord => "Empty record"
  | .invalidName name => "Invalid commit log segment name: " ++ name
  | .unsupportedVersion version max =>
    s!"Unsupported commit log format version {version} (max {max})"
  | .unreadable path cause => unreadableMessage path cause.text
  | .refused position reason => "Failed to apply record at " ++ position.display ++ ": " ++ reason
  | .settings cause => settingsMessage cause.text

end LogError

namespace SegmentName

/-- Reads the name of a segment file, or says which name is none. -/
def parse (stem name : String) : Except LogError SegmentName :=
  match parse? stem name with
  | some n => .ok n
  | none => .error (.invalidName name)

/-- Reads the name of the segment file that a path leads to. A path whose last part is no text is
named whole. -/
def ofPath (stem : String) (p : Path) : Except LogError SegmentName :=
  match p.fileName?.bind Utf8.decode? with
  | some name => parse stem name
  | none => .error (.invalidName p.display)

/-- Refuses a segment of a later version than can be replayed. -/
def requireSupported (n : SegmentName) : Except LogError Unit :=
  if n.isSupported then .ok () else .error (.unsupportedVersion n.version currentVersion)

end SegmentName

end SegmentLog
