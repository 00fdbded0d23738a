import SegmentLog.Bytes.BigEndian

/-!
# Disk errors and faults

Why a disk refuses a call, and the faults that its surroundings have in store for it. A plan of
faults names, for each kind of call that changes the disk, what happens to the calls still to come;
past the end of a plan every call is left alone, so the empty plan is a disk that fails only for a
reason of its own. Whether a file can be read is a matter of the file: some of it may have gone bad.
-/

namespace SegmentLog

/-- Why a disk refuses a call. -/
inductive DiskError where
  | notFound
  | alreadyExists
  | notADirectory
  | isADirectory
  /-- The call makes no sense: a path with a zero byte, or a write past the largest offset. -/
  | invalidInput
  /-- A name or a path is too long. -/
  | invalidFilename
  /-- The medium itself failed. -/
  | device
  deriving DecidableEq, Repr

/-- The wording of a refusal. -/
def DiskError.text : DiskError → String
  | .notFound => "No such file or directory (os error 2)"
  | .alreadyExists => "File exists (os error 17)"
  | .notADirectory => "Not a directory (os error 20)"
  | .isADirectory => "Is a directory (os error 21)"
  | .invalidInput => "Invalid argument (os error 22)"
  | .invalidFilename => "File name too long (os error 36)"
  | .device => "Input/output error (os error 5)"

/-- Why a file cannot be read to its end. -/
inductive ReadFault where
  /-- It does not open, or does not tell its size once it is open. -/
  | opening (cause : DiskError)
  /-- It opens, and its reading fails behind so many bytes. -/
  | reading (count : Nat) (cause : DiskError)
  deriving DecidableEq, Repr

/-- What the surroundings do to the calls still to come, one entry for each call of a kind:
`none` leaves the call alone. A write that fails may have put some bytes on the disk first. -/
structure Faults where
  create : List (Option DiskError) := []
  write : List (Option (Nat × DiskError)) := []
  sync : List (Option DiskError) := []
  remove : List (Option DiskError) := []
  deriving DecidableEq, Repr

/-- What a plan has in store for the next call. -/
def Faults.next? {α : Type} (plan : List (Option α)) : Option α := plan.head?.join

theorem Faults.next?_nil {α : Type} : Faults.next? ([] : List (Option α)) = none := rfl

end SegmentLog
