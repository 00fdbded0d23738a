import SegmentLog.Frame.Reading

/-!
# What the bytes of a segment say

Some bytes begin with a whole frame, or with a reason why there is none. From the one frame to the
next, they are scanned for the records that can be read.

`Scan.ofBytes` finds all records that can be read.

* `Frame.first_length` — a frame takes up at least the bytes of its header;
* `Scan.ofBytesAt_frame`, `Scan.ofBytesAt_stop` — a scan goes on after every whole frame, and
  only there.
-/

namespace SegmentLog

namespace Frame

/-- What some bytes begin with: a whole frame with its payload and the bytes after it, or the
reason why there is none. -/
inductive First where
  | frame (payload rest : Bytes)
  | stop (tail : Tail)
  deriving DecidableEq, Repr

/-- Reads the frame at the front of some bytes. -/
def first (bytes : Bytes) : First :=
  let head := bytes.take overhead
  let rest := bytes.drop overhead
  let header := Header.decode head
  if head.isEmpty then .stop .clean
  else if head.length < 4 then .stop .truncated
  else if header.size = endMarker then .stop .endMarker
  else if head.length < overhead then .stop .truncated
  else if !header.isValid then .stop .checksumMismatch
  else if header.size < 0 then .stop .invalidSize
  else
    let payload := rest.take header.size.toInt.toNat
    if payload.length < header.size.toInt.toNat then .stop .invalidSize
    else .frame payload (rest.drop header.size.toInt.toNat)

/-- A frame takes up bytes. -/
theorem first_length {bytes payload rest : Bytes} (h : first bytes = .frame payload rest) :
    bytes.length = overhead + payload.length + rest.length := by
  simp only [first] at h
  split at h
  · cases h
  split at h
  · cases h
  split at h
  · cases h
  split at h
  · cases h
  rename_i hlen
  split at h
  · cases h
  split at h
  · cases h
  split at h
  · cases h
  cases h
  simp only [List.length_take, List.length_drop] at *
  omega

end Frame

/-- What can be read from a segment: the payloads with the offsets of their frames, why the
reading stopped, and where. -/
structure Scan where
  records : List (Nat × Bytes)
  tail : Tail
  stop : Nat
  deriving DecidableEq, Repr

namespace Scan

/-- Reads the records of the bytes that begin at `offset`. -/
def ofBytesAt (offset : Nat) (bytes : Bytes) : Scan :=
  match _h : Frame.first bytes with
  | .stop tail => ⟨[], tail, offset⟩
  | .frame payload rest =>
    let more := ofBytesAt (offset + Frame.overhead + payload.length) rest
    { more with records := (offset, payload) :: more.records }
termination_by bytes.length
decreasing_by
  have := Frame.first_length _h
  simp only [Frame.overhead] at this
  omega

/-- Reads the records of a segment. -/
def ofBytes (bytes : Bytes) : Scan := ofBytesAt 0 bytes

theorem ofBytesAt_stop {bytes : Bytes} {tail : Tail} (h : Frame.first bytes = .stop tail)
    (offset : Nat) : ofBytesAt offset bytes = ⟨[], tail, offset⟩ := by
  rw [ofBytesAt]
  split
  · simp_all
  · simp_all

theorem ofBytesAt_frame {bytes payload rest : Bytes} (h : Frame.first bytes = .frame payload rest)
    (offset : Nat) :
    ofBytesAt offset bytes =
      { ofBytesAt (offset + Frame.overhead + payload.length) rest with
        records := (offset, payload) ::
          (ofBytesAt (offset + Frame.overhead + payload.length) rest).records } := by
  rw [ofBytesAt]
  split
  · simp_all
  · simp_all

end Scan

end SegmentLog
