import SegmentLog.Store.Spare

/-!
# Appending

An append frames its mutation, claims space at the end of the log, and writes the frame into the
claimed range. The claim is one step in which nothing else can run: it chooses the segment,
starts a new one if the last is full or sealed, and marks the partitions of the mutation, so
that no segment is deleted while a write to it is still to come. The write happens after that
step, and many appends may be writing at once.

Where every append is synced, it waits until no earlier claim in its segment is pending, because
a record behind a gap would not be replayed, and then brings the segment to stable storage. A
write or a sync that fails seals the segment.

`append` is the whole of it for a store that nothing else is using, where there is never anything
to wait for.

* `append_refused` — a mutation that cannot be framed changes nothing;
* `segmentFor_tail` — the last segment is taken while it has room.
-/

namespace SegmentLog

/-- A range that was claimed in a segment. -/
structure Claim where
  handle : Handle
  offset : Nat
  deriving DecidableEq, Repr

namespace Store

/-- Makes a segment the last active one. The one before it is sealed, and with look-ahead the
worker is told to create the next spare. -/
def activate (s : Store) (h : Handle) : Store :=
  let s := match s.tail? with
    | some previous => s.modify previous Segment.sealOff
    | none => s
  let s := { s with active := s.active ++ [h] }
  if s.settings.lookAhead then s.send .stockSpare else s

/-- Starts a new last segment: the spare, or a segment created now. -/
def rollOver (s : Store) : Except LogError Handle × Store :=
  match s.withdrawSpare with
  | (some h, s) => (.ok h, s.activate h)
  | (none, s) =>
    match s.newSegment with
    | (.ok h, s) => (.ok h, s.activate h)
    | (.error e, s) =>
      match s.report (.disk e) with
      | (e, s) => (.error e, s)

/-- Whether the last segment takes in `length` more bytes. -/
def tailFits (s : Store) (h : Handle) (length : Nat) : Bool :=
  !(s.segment h).sealed && (s.segment h).fits length

/-- The segment that takes in `length` more bytes: the last one, or a new one after it. -/
def segmentFor (s : Store) (length : Nat) : Except LogError Handle × Store :=
  match s.tail? with
  | some h => if s.tailFits h length then (.ok h, s) else s.rollOver
  | none => s.rollOver

/-- Marks partitions as having a record at an offset. -/
def noteRecord (s : Store) (h : Handle) (partitions : List Partition) (offset : Nat) : Store :=
  s.modify h fun segment => partitions.foldl (fun g p => g.noteRecord p offset) segment

/-- Claims `length` bytes at the end of the log for a record of some partitions. -/
def claim (s : Store) (partitions : List Partition) (length : Nat) :
    Except LogError Claim × Store :=
  match s.segmentFor length with
  | (.error e, s) => (.error e, s)
  | (.ok h, s) =>
    match (s.segment h).claim length with
    | some (offset, segment) =>
      (.ok ⟨h, offset⟩, (s.modify h fun _ => segment).noteRecord h partitions offset)
    | none =>
      match s.report (.noRoom length (s.segment h).id) with
      | (e, s) => (.error e, s)

/-- Writes a frame into its claim, which is over after that. -/
def write (s : Store) (c : Claim) (frame : Bytes) : Except DiskError Unit × Store :=
  match (s.segment c.handle).write s.disk c.offset frame with
  | (r, segment, disk) => (r, { s.modify c.handle (fun _ => segment) with disk })

/-- Whether an earlier claim in the segment is still pending. -/
def awaits (s : Store) (c : Claim) : Bool := (s.segment c.handle).awaitsBefore c.offset

/-- Brings a segment to stable storage. -/
def syncSegment (s : Store) (h : Handle) (force : Bool) : Except DiskError Unit × Store :=
  match (s.segment h).sync s.disk force with
  | (r, segment, disk) => (r, { s.modify h (fun _ => segment) with disk })

/-- Seals a segment after a failure, and reports the failure. -/
def giveUp (s : Store) (h : Handle) (cause : DiskError) : LogError × Store :=
  (s.sealOff h).report (.disk cause)

/-- The position of a claim. -/
def positionOf (s : Store) (c : Claim) : Position := ⟨(s.segment c.handle).id, c.offset⟩

/-- Ends an append whose frame is written and which need not wait any more. -/
def acknowledge (s : Store) (c : Claim) : Except LogError Position × Store :=
  if s.settings.sync = .eachAppend then
    match s.syncSegment c.handle true with
    | (.ok (), s) => (.ok (s.positionOf c), s)
    | (.error cause, s) =>
      match s.giveUp c.handle cause with
      | (e, s) => (.error e, s)
  else (.ok (s.positionOf c), s)

/-- Appends a mutation, and gives the position of its record. -/
def append (s : Store) (m : Mutation) : Except LogError Position × Store :=
  match m.frame s.maxPayload with
  | .error e => (.error e, s)
  | .ok frame =>
    match s.claim m.partitions frame.length with
    | (.error e, s) => (.error e, s)
    | (.ok c, s) =>
      match s.write c frame with
      | (.ok (), s) => s.acknowledge c
      | (.error cause, s) =>
        match s.giveUp c.handle cause with
        | (e, s) => (.error e, s)

theorem append_refused {s : Store} {m : Mutation} {e : LogError}
    (h : m.frame s.maxPayload = .error e) : s.append m = (.error e, s) := by
  rw [append, h]

theorem segmentFor_tail {s : Store} {h : Handle} {length : Nat} (ht : s.tail? = some h)
    (hf : s.tailFits h length = true) : s.segmentFor length = (.ok h, s) := by
  simp [segmentFor, ht, hf]

end Store

end SegmentLog
