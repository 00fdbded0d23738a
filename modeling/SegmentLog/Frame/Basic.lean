import SegmentLog.Bytes.Crc32
import SegmentLog.LogError

/-!
# Frames

A record lies in a segment as a frame: the length of its payload as a signed word of four bytes,
the check value of those four bytes as a word of eight, then the payload. The check value lets
a reader trust the length before it relies on it; it says nothing about the payload.

`Frame.encode` writes a frame. A mutation is what is appended to a log; `Mutation.frame` writes
the frame of one that keeps the length it declares.

* `Frame.Header.decode_encode` — a header survives the way to its bytes and back;
* `Frame.checkSize_eq_ok_iff`, `Frame.length_encode` — which payloads are framed, and how long
  their frames are;
* `Mutation.frame_raw` — a raw mutation is framed as its payload is.
-/

namespace SegmentLog

namespace Frame

/-- The bytes of a frame before the payload. -/
def overhead : Nat := 12

/-- The length that marks the end of what was written to a segment. -/
def endMarker : Int32 := 0

/-- The largest payload for a segment: half the segment less the frame, so that two records
always fit. -/
def maxPayload (capacity : Nat) : Nat := capacity / 2 - overhead

/-- The four bytes of a length. -/
def sizeBytes (size : Int32) : Bytes := BigEndian.bytes32 size.toUInt32

/-- The check value of a length. -/
def checksumOf (size : Int32) : UInt64 := (Crc32.crc32 (sizeBytes size)).toUInt64

/-- What stands before the payload. -/
structure Header where
  size : Int32
  checksum : UInt64
  deriving DecidableEq, Repr

namespace Header

/-- The header of a payload of `size` bytes. -/
def ofSize (size : Int32) : Header := ⟨size, checksumOf size⟩

/-- A header as bytes. -/
def encode (h : Header) : Bytes := sizeBytes h.size ++ BigEndian.bytes64 h.checksum

/-- The header spelled by twelve bytes. -/
def decode (bytes : Bytes) : Header :=
  ⟨⟨BigEndian.word32 (bytes.take 4)⟩, BigEndian.word64 (bytes.drop 4)⟩

/-- Whether the check value is the one of the length. -/
def isValid (h : Header) : Bool := h.checksum == checksumOf h.size

theorem length_encode (h : Header) : h.encode.length = overhead := by
  simp [encode, sizeBytes, BigEndian.length_bytes32, BigEndian.length_bytes64, overhead]

/-- Reading a header gives back what was written. -/
theorem decode_encode (h : Header) : decode h.encode = h := by
  have h4 : (sizeBytes h.size).length = 4 := BigEndian.length_bytes32 _
  rw [decode, encode, List.take_left' h4, List.drop_left' h4, sizeBytes,
    BigEndian.word32_bytes32, BigEndian.word64_bytes64]

theorem isValid_ofSize (size : Int32) : (ofSize size).isValid = true := by
  simp [isValid, ofSize]

end Header

/-- The frame of a payload that declares its length as `size`. -/
def ofParts (size : Nat) (payload : Bytes) : Bytes :=
  (Header.ofSize (Int32.ofNat size)).encode ++ payload

/-- Refuses the length of a payload that is empty, and so would read as the end marker, or too
large. -/
def checkSize (size max : Nat) : Except LogError Unit :=
  if size = 0 then .error .emptyRecord
  else if max < size then .error (.recordTooLarge size max)
  else .ok ()

/-- The frame of a payload of at most `max` bytes. -/
def encode (payload : Bytes) (max : Nat) : Except LogError Bytes :=
  match checkSize payload.length max with
  | .error e => .error e
  | .ok () => .ok (ofParts payload.length payload)

theorem length_ofParts (size : Nat) (payload : Bytes) :
    (ofParts size payload).length = overhead + payload.length := by
  rw [ofParts, List.length_append, Header.length_encode]

theorem checkSize_eq_ok_iff {size max : Nat} :
    checkSize size max = .ok () ↔ 0 < size ∧ size ≤ max := by
  rw [checkSize]
  split
  · constructor
    · intro h; cases h
    · omega
  · split
    · constructor
      · intro h; cases h
      · omega
    · constructor
      · omega
      · intro _; rfl

theorem length_encode {payload frame : Bytes} {max : Nat} (h : encode payload max = .ok frame) :
    frame.length = overhead + payload.length := by
  rw [encode] at h
  split at h
  · cases h
  · cases h
    exact length_ofParts _ _

end Frame

/-- What is appended to a log: the partitions it writes to, the length it declares for its
payload, and the payload it writes out. -/
structure Mutation where
  partitions : List Partition
  declared : Nat
  payload : Bytes
  deriving DecidableEq, Repr

namespace Mutation

/-- A mutation that is nothing but its payload. -/
def raw (partitions : List Partition) (payload : Bytes) : Mutation :=
  ⟨partitions, payload.length, payload⟩

/-- The frame of a mutation. The declared length is what is checked first and what the header
says. -/
def frame (m : Mutation) (max : Nat) : Except LogError Bytes :=
  match Frame.checkSize m.declared max with
  | .error e => .error e
  | .ok () =>
    if m.payload.length = m.declared then .ok (Frame.ofParts m.declared m.payload)
    else .error (.io (.wrongLength m.declared m.payload.length))

/-- A raw mutation is framed as its payload is. -/
theorem frame_raw (partitions : List Partition) (payload : Bytes) (max : Nat) :
    (raw partitions payload).frame max = Frame.encode payload max := by
  simp only [frame, raw, Frame.encode, if_true]

end Mutation

end SegmentLog
