import SegmentLog.Frame.Basic
import SegmentLog.Segment.Marks

/-!
# Segments

A segment is one file of the log with room for a fixed count of bytes. Space is claimed by moving
the cursor, and the frame is written into the claimed range afterwards, so several appends can
write at once; a claim is pending until its write is over, whatever came of it. The segment
keeps the partitions with unflushed records in it, whether it is sealed (the log goes on behind
it, or it may have a gap), and whether something was written since the last sync.

* `claim_eq_some_iff`, `claim_eq_none_iff` — when a claim is granted, and what it changes;
* `mem_pending_claim`, `mem_pending_release` — how the pending claims follow.
-/

namespace SegmentLog

/-- A segment, as the process that writes it knows it. -/
structure Segment where
  name : SegmentName
  path : Path
  file : FileId
  /-- How many bytes the segment has room for. -/
  capacity : Nat
  /-- Where the next claim begins. -/
  cursor : Nat := 0
  /-- The partitions with unflushed records. -/
  marks : Marks := {}
  /-- Where the claims begin that are not written yet. -/
  pending : List Nat := []
  /-- Whether no later record goes here. -/
  sealed : Bool := false
  /-- Whether something was written since the last sync. -/
  unsynced : Bool := false
  deriving Inhabited

namespace Segment

/-- Creates an empty segment in a directory, with a new file. -/
def create (d : Disk) (directory : Path) (stem : String) (name : SegmentName) (capacity : Nat) :
    Except DiskError Segment × Disk :=
  let path := directory.join (.ofString (name.render stem))
  match d.createNew path with
  | (.error e, d) => (.error e, d)
  | (.ok file, d) => (.ok { name, path, file, capacity }, d)

/-- The number of a segment. -/
def id (s : Segment) : SegmentId := s.name.id

/-- The largest payload for a segment. -/
def maxPayload (s : Segment) : Nat := Frame.maxPayload s.capacity

/-- Where the next record would be. -/
def position (s : Segment) : Position := ⟨s.id, s.cursor⟩

/-- Whether a position lies in a segment. -/
def holds (s : Segment) (p : Position) : Bool := p.segment == s.id

/-! ## Claims and writes -/

/-- Whether `length` more bytes fit. -/
def fits (s : Segment) (length : Nat) : Bool := s.cursor + length ≤ s.capacity

/-- Claims `length` bytes, if they fit, and says where they begin. -/
def claim (s : Segment) (length : Nat) : Option (Nat × Segment) :=
  if s.cursor + length ≤ s.capacity then
    some (s.cursor,
      { s with cursor := s.cursor + length, pending := s.pending.insert s.cursor })
  else none

/-- The write of the claim that begins at `offset` is over. -/
def release (s : Segment) (offset : Nat) : Segment :=
  { s with pending := s.pending.filter (· != offset) }

/-- Writes a frame at the offset of its claim. The claim is over whether or not the write
succeeds. -/
def write (s : Segment) (d : Disk) (offset : Nat) (frame : Bytes) :
    Except DiskError Unit × Segment × Disk :=
  match d.writeAt s.file offset frame with
  | (.ok (), d) => (.ok (), { s.release offset with unsynced := true }, d)
  | (.error e, d) => (.error e, s.release offset, d)

/-- Whether a claim that begins before `offset` is still pending. -/
def awaitsBefore (s : Segment) (offset : Nat) : Bool := s.pending.any (· < offset)

/-- Frames and writes a payload, and says where it is, or that there is no room. -/
def append (s : Segment) (d : Disk) (payload : Bytes) :
    Except LogError (Option Position) × Segment × Disk :=
  match Frame.encode payload s.maxPayload with
  | .error e => (.error e, s, d)
  | .ok frame =>
    match s.claim frame.length with
    | none => (.ok none, s, d)
    | some (offset, s) =>
      match s.write d offset frame with
      | (.error e, s, d) => (.error (.io (.disk e)), s, d)
      | (.ok (), s, d) => (.ok (some ⟨s.id, offset⟩), s, d)

/-! ## Unflushed partitions -/

/-- A partition has an unflushed record at an offset. -/
def noteRecord (s : Segment) (p : Partition) (offset : Nat) : Segment :=
  { s with marks := s.marks.mark p offset }

/-- Drops the mark of a partition, whatever its offset. -/
def forget (s : Segment) (p : Partition) : Segment := { s with marks := s.marks.erase p }

/-- Whether a flush up to a position covers a record of this segment. -/
def isCovered (s : Segment) (upTo : Position) (offset : Nat) : Bool :=
  s.id < upTo.segment || (upTo.segment == s.id && offset ≤ upTo.offset)

/-- A partition was flushed up to a position: it is forgotten here if that covers its last
record. -/
def noteFlush (s : Segment) (p : Partition) (upTo : Position) : Segment :=
  match s.marks.offset? p with
  | some offset => if s.isCovered upTo offset then s.forget p else s
  | none => s

/-- Whether nothing depends on a segment any more. -/
def isSpent (s : Segment) : Bool := s.sealed && s.marks.isEmpty

/-! ## Life -/

/-- Brings what was written to stable storage. Unless it is forced, a sync with nothing new to
bring there is left out. -/
def sync (s : Segment) (d : Disk) (force : Bool) : Except DiskError Unit × Segment × Disk :=
  if !force && !s.unsynced then (.ok (), { s with unsynced := false }, d)
  else
    match d.sync s.file with
    | (.ok (), d) => (.ok (), { s with unsynced := false }, d)
    | (.error e, d) => (.error e, { s with unsynced := true }, d)

/-- No later record goes here. Claims that are pending may still be written. -/
def sealOff (s : Segment) : Segment := { s with sealed := true }

/-- Removes the file of a segment. -/
def delete (s : Segment) (d : Disk) : Except DiskError Unit × Disk := d.remove s.path

/-- A segment as text. -/
def display (s : Segment) : String :=
  s!"Segment \x7b id: {s.id}, path: " ++ s.path.quoted ++
    s!", write_offset: {s.cursor}, capacity: {s.capacity}, retired: {s.sealed} \x7d"

/-! ## Lemmas -/

/-- A claim is granted exactly if it fits; it begins at the cursor and moves it. -/
theorem claim_eq_some_iff {s t : Segment} {length offset : Nat} :
    s.claim length = some (offset, t) ↔
      s.fits length = true ∧ offset = s.cursor ∧
        t = { s with cursor := s.cursor + length, pending := s.pending.insert s.cursor } := by
  simp only [claim, fits, decide_eq_true_eq]
  constructor
  · intro h
    split at h
    · cases h
      exact ⟨‹_›, rfl, rfl⟩
    · cases h
  · rintro ⟨h, rfl, rfl⟩
    rw [if_pos h]

theorem claim_eq_none_iff {s : Segment} {length : Nat} :
    s.claim length = none ↔ s.fits length = false := by
  simp only [claim, fits, decide_eq_false_iff_not]
  constructor
  · intro h hle
    rw [if_pos hle] at h
    cases h
  · intro h
    rw [if_neg h]

theorem mem_pending_claim {s t : Segment} {length offset : Nat}
    (h : s.claim length = some (offset, t)) {o : Nat} :
    o ∈ t.pending ↔ o = s.cursor ∨ o ∈ s.pending := by
  rw [(claim_eq_some_iff.mp h).2.2]
  exact List.mem_insert_iff

theorem mem_pending_release {s : Segment} {offset o : Nat} :
    o ∈ (s.release offset).pending ↔ o ∈ s.pending ∧ o ≠ offset := by
  simp [release]

end Segment

end SegmentLog
