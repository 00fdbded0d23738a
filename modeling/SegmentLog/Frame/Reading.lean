import SegmentLog.Disk.Reader
import SegmentLog.Frame.Basic

/-!
# Reading a segment frame by frame

The records of a segment are read frame by frame until something stops the reading: the end of
the file, the end marker, or a frame that is cut short or damaged. Nothing of that is an error;
a frame that was only partly written is what the end of a segment looks like after a crash. An error
is only what the reader fails with.

A frame is not read as a whole: first its length is asked for, then its check value, and only if
the two agree, and the file is long enough, its payload.

* `Frame.readHead`, `Frame.readNext` — one frame;
* `Frame.stored_readNext` — a frame that is read is no longer in store, so that the reading of a
  segment comes to an end.
-/

namespace SegmentLog

/-- Why the reading of a segment stopped. -/
inductive Tail where
  /-- The file ends where a frame ends. -/
  | clean
  /-- The next length is zero. -/
  | endMarker
  /-- The file ends inside a frame. -/
  | truncated
  /-- The check value is not the one of the length. -/
  | checksumMismatch
  /-- The length is negative, or reaches beyond the end of the file. -/
  | invalidSize
  deriving DecidableEq, Repr

namespace Tail

/-- Whether the reading stopped before the end of what was written. -/
def isCutShort : Tail → Bool
  | .clean | .endMarker => false
  | .truncated | .checksumMismatch | .invalidSize => true

/-- A tail as text. -/
def display : Tail → String
  | .clean => "Clean"
  | .endMarker => "EndMarker"
  | .truncated => "Truncated"
  | .checksumMismatch => "ChecksumMismatch"
  | .invalidSize => "InvalidSize"

end Tail

namespace Frame

/-- What the length and the check value at the front of a frame come to: a reason to stop, or a
length that can be relied on. -/
inductive Head where
  | stop (tail : Tail)
  | size (size : Int32)
  deriving DecidableEq, Repr

/-- Reads the length and the check value of a frame. -/
def readHead (r : Reader) : Except DiskError (Head × Reader) :=
  match Reader.readAtMost 4 r with
  | .error cause => .error cause
  | .ok (field, r) =>
    if field.length = 0 then .ok (.stop .clean, r)
    else if field.length < 4 then .ok (.stop .truncated, r)
    else if (⟨BigEndian.word32 field⟩ : Int32) = endMarker then .ok (.stop .endMarker, r)
    else
      match Reader.readAtMost 8 r with
      | .error cause => .error cause
      | .ok (check, r) =>
        if check.length < 8 then .ok (.stop .truncated, r)
        else if BigEndian.word64 check ≠ checksumOf ⟨BigEndian.word32 field⟩ then
          .ok (.stop .checksumMismatch, r)
        else .ok (.size ⟨BigEndian.word32 field⟩, r)

/-- What is read of a file where a frame may begin: its payload, or a reason to stop. -/
inductive Next where
  | stop (tail : Tail)
  | frame (payload : Bytes)
  deriving DecidableEq, Repr

/-- Reads a frame of a file that has room for so many bytes behind the head of the frame. -/
def readNext (room : Nat) (r : Reader) : Except DiskError (Next × Reader) :=
  match readHead r with
  | .error cause => .error cause
  | .ok (.stop tail, r) => .ok (.stop tail, r)
  | .ok (.size size, r) =>
    if size < 0 ∨ room < size.toInt.toNat then .ok (.stop .invalidSize, r)
    else
      match Reader.readAtMost size.toInt.toNat r with
      | .error cause => .error cause
      | .ok (payload, r) =>
        if payload.length < size.toInt.toNat then .ok (.stop .truncated, r)
        else .ok (.frame payload, r)

/-- A head that can be relied on has taken its bytes from the reader. -/
theorem stored_readHead {r rest : Reader} {size : Int32}
    (h : readHead r = .ok (.size size, rest)) : overhead + rest.stored ≤ r.stored := by
  unfold readHead at h
  split at h
  · cases h
  rename_i field r₁ hfield
  split at h
  · cases h
  split at h
  · cases h
  split at h
  · cases h
  split at h
  · cases h
  rename_i check r₂ hcheck
  split at h
  · cases h
  split at h
  · cases h
  cases h
  have hr := Reader.stored_readAtMost hfield
  have hr₁ := Reader.stored_readAtMost hcheck
  rw [overhead]
  omega

/-- A frame that is read is no longer in store. -/
theorem stored_readNext {room : Nat} {r rest : Reader} {payload : Bytes}
    (h : readNext room r = .ok (.frame payload, rest)) :
    overhead + payload.length + rest.stored ≤ r.stored := by
  unfold readNext at h
  split at h
  · cases h
  · cases h
  rename_i size r₁ hhead
  split at h
  · cases h
  split at h
  · cases h
  rename_i payload' r₂ hpayload
  split at h
  · cases h
  cases h
  have hr := stored_readHead hhead
  have hr₁ := Reader.stored_readAtMost hpayload
  omega

end Frame

end SegmentLog
