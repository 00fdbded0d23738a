import SegmentLog.Proofs.Disk.Files
import SegmentLog.Proofs.Frame.Language
import SegmentLog.Proofs.Frame.Reading
import SegmentLog.Replay.Basic

/-!
# Replays in terms of what is read

A replay hands each record of a file to its target before it reads the next one. What comes of it is
what would come of reading the file first, as far as it can be read, and then handing over one
record after the other: whatever the target does, it makes no difference to what is read; and
whatever the reader does later, a record is applied once it was read.

* `deliver_skip`, `deliver_refused`, `deliver_applied` — handing over one record after the other;
* `file_eq` — the replay of a file, in terms of what is read from it;
* `reading_of_contents`, `file_of_contents` — a file that can be read to its end;
* `records_of_fault` — a file that cannot: the records before the place where its reading fails.
-/

namespace SegmentLog

namespace Disk

variable {d : Disk} {path : Path}

/-- What is read from the segment file at a path. -/
def reading (d : Disk) (path : Path) : Reading :=
  match d.opened path with
  | .error cause => ⟨[], .error cause⟩
  | .ok (size, reader) => .ofReader size reader

/-- Whether a segment file can be read to where its records stop. -/
def Reads (d : Disk) (path : Path) : Prop := ∃ tail stop, (d.reading path).ending = .ok (tail, stop)

/-- Either a segment file can be read to where its records stop, or there is a reason why not. -/
theorem reads_or (d : Disk) (path : Path) :
    d.Reads path ∨ ∃ cause, (d.reading path).ending = .error cause := by
  cases h : (d.reading path).ending with
  | error cause => exact .inr ⟨cause, rfl⟩
  | ok ending => exact .inl ⟨ending.1, ending.2, h⟩

/-- A file that can be read to its end is read as its content is scanned. -/
theorem reading_of_contents {bytes : Bytes} (h : d.contents path = .ok bytes) :
    d.reading path = .ofScan (Scan.ofBytes bytes) := by
  obtain ⟨q, id, hfind, hfault, rfl⟩ := find_of_contents h
  have hsize : (d.content id).length = 0 + (Reader.ofBytes (d.content id)).delivered.length := by
    rw [Reader.delivered_ofBytes, Nat.zero_add]
  rw [reading, opened_of_find hfind hfault]
  dsimp only
  rw [Reading.ofReader, Reading.ofReaderAt_eq (Reader.cause?_ofBytes _) hsize,
    Reader.delivered_ofBytes]
  rfl

theorem reads_of_contents {bytes : Bytes} (h : d.contents path = .ok bytes) : d.Reads path :=
  ⟨_, _, congrArg Reading.ending (reading_of_contents h)⟩

/-- No more bytes are delivered of what is opened than its size. -/
theorem delivered_le_of_opened {size : Nat} {reader : Reader}
    (h : d.opened path = .ok (size, reader)) : reader.delivered.length ≤ size := by
  unfold opened Disk.reader Disk.size at h
  cases hfind : d.find path with
  | error e =>
    rw [hfind] at h
    cases h
  | ok found =>
    obtain ⟨q, node⟩ := found
    rw [hfind] at h
    cases node with
    | directory id =>
      cases h
      exact Nat.zero_le _
    | file id =>
      dsimp only [FileData.reader] at h
      cases hfault : (d.files.getD id {}).fault with
      | none =>
        rw [hfault] at h
        cases h
        rw [Reader.delivered_ofBytes, Array.length_toList]
      | some fault =>
        rw [hfault] at h
        cases fault with
        | opening cause => cases h
        | reading count cause =>
          cases h
          rw [Reader.delivered_broken, List.length_take, Array.length_toList]
          exact Nat.min_le_right _ _

/-- The records of what is opened are those of the bytes that are delivered of it, whether or not
its reading fails behind them. -/
theorem records_of_opened {size : Nat} {reader : Reader}
    (h : d.opened path = .ok (size, reader)) :
    (d.reading path).records = (Scan.ofBytes reader.delivered).records := by
  have hfits : 0 + reader.delivered.length ≤ size := by
    rw [Nat.zero_add]
    exact delivered_le_of_opened h
  rw [reading, h]
  exact Reading.records_ofReaderAt hfits

/-- Of a file whose reading fails behind some of its bytes, the records are read whose frames end
before that. -/
theorem records_of_fault {q : Place} {id : FileId} {count : Nat} {cause : DiskError}
    (hfind : d.find path = .ok (q, .file id)) (hfault : d.fault? id = some (.reading count cause)) :
    (d.reading path).records = (Scan.ofBytes ((d.content id).take count)).records := by
  have hopened : d.opened path =
      .ok ((d.content id).length, .broken ((d.content id).take count) cause) := by
    rw [fault?] at hfault
    simp only [opened, reader, hfind, FileData.reader, hfault, size_of_find hfind]
    rfl
  rw [records_of_opened hopened, Reader.delivered_broken]

/-- The records of a file ascend, as far as they can be read. -/
theorem ascending_reading (d : Disk) (path : Path) :
    (d.reading path).records.Pairwise fun r r' => r.1 < r'.1 := by
  cases h : d.opened path with
  | error cause =>
    rw [reading, h]
    exact .nil
  | ok found =>
    rw [records_of_opened h]
    exact Scan.ascending_records _

end Disk

namespace Replay

variable {σ : Type}

/-- Hands the records of a segment to a target, as far as it takes them. -/
def deliver (r : Replay) (target : Target σ) (segment : SegmentId) :
    List (Nat × Bytes) → Progress σ → Except LogError Unit × Progress σ
  | [], p => (.ok (), p)
  | (offset, payload) :: more, p =>
    match r.hand target ⟨segment, offset⟩ payload p with
    | (.error e, p) => (.error e, p)
    | (.ok (), p) => r.deliver target segment more p

theorem deliver_nil (r : Replay) (target : Target σ) (segment : SegmentId) (p : Progress σ) :
    r.deliver target segment [] p = (.ok (), p) := rfl

/-- A record before the floor is counted and passed over. -/
theorem deliver_skip (r : Replay) (target : Target σ) {segment : SegmentId} {offset : Nat}
    (payload : Bytes) (more : List (Nat × Bytes)) (p : Progress σ)
    (h : (⟨segment, offset⟩ : Position) < r.floor) :
    r.deliver target segment ((offset, payload) :: more) p =
      r.deliver target segment more { p with passed := p.passed + 1 } := by
  rw [deliver, hand, if_pos h]

/-- A record that the target refuses ends the replay. -/
theorem deliver_refused (r : Replay) (target : Target σ) {segment : SegmentId} {offset : Nat}
    {payload : Bytes} (more : List (Nat × Bytes)) {p : Progress σ} {reason : String} {s : σ}
    (h : ¬ (⟨segment, offset⟩ : Position) < r.floor)
    (ha : target.apply ⟨segment, offset⟩ payload p.state = (.error reason, s)) :
    r.deliver target segment ((offset, payload) :: more) p =
      (.error (.refused ⟨segment, offset⟩ reason), { p with state := s }) := by
  rw [deliver, hand, if_neg h, ha]

/-- A record that the target takes in is counted, and becomes the last one. -/
theorem deliver_applied (r : Replay) (target : Target σ) {segment : SegmentId} {offset : Nat}
    {payload : Bytes} (more : List (Nat × Bytes)) {p : Progress σ} {s : σ}
    (h : ¬ (⟨segment, offset⟩ : Position) < r.floor)
    (ha : target.apply ⟨segment, offset⟩ payload p.state = (.ok (), s)) :
    r.deliver target segment ((offset, payload) :: more) p =
      r.deliver target segment more
        { p with state := s, last := some ⟨segment, offset⟩, applied := p.applied + 1 } := by
  rw [deliver, hand, if_neg h, ha]

/-- Reading one record after the other and handing each of them over comes to the same as reading
all of them first. -/
theorem fileFrom_eq (r : Replay) (target : Target σ) (path : Path) (segment : SegmentId)
    (size offset : Nat) (reader : Reader) (p : Progress σ) :
    r.fileFrom target path segment size offset reader p =
      match r.deliver target segment (Reading.ofReaderAt size offset reader).records p with
      | (.error e, p) => (.error e, p)
      | (.ok (), p) =>
        match (Reading.ofReaderAt size offset reader).ending with
        | .error cause => (.error (.unreadable path cause), p)
        | .ok stop => (.ok stop, p) := by
  cases hnext : Frame.readNext (size - (offset + Frame.overhead)) reader with
  | error cause =>
    rw [fileFrom_unreadable r target path segment p hnext, Reading.ofReaderAt_error hnext,
      deliver_nil]
  | ok found =>
    obtain ⟨next, rest⟩ := found
    cases next with
    | stop tail =>
      rw [fileFrom_stop r target path segment p hnext, Reading.ofReaderAt_stop hnext, deliver_nil]
    | frame payload =>
      have hstored := Frame.stored_readNext hnext
      rw [fileFrom_frame r target path segment p hnext, Reading.ofReaderAt_frame hnext, deliver]
      dsimp only
      cases hhand : r.hand target ⟨segment, offset⟩ payload p with
      | mk result p' =>
        cases result with
        | error e => rfl
        | ok =>
          exact fileFrom_eq r target path segment size (offset + Frame.overhead + payload.length)
            rest p'
termination_by reader.stored
decreasing_by
  rw [Frame.overhead] at hstored
  omega

/-- **The replay of a file** hands over the records that are read from it, and ends where they end,
or fails where they cannot be read any further. -/
theorem file_eq (r : Replay) (target : Target σ) (d : Disk) (name : SegmentName) (path : Path)
    (p : Progress σ) :
    r.file target d name path p =
      match r.deliver target name.id (d.reading path).records
        { p with applied := 0, passed := 0 } with
      | (.error e, p) => (.error e, p)
      | (.ok (), p) =>
        match (d.reading path).ending with
        | .error cause => (.error (.unreadable path cause), p)
        | .ok (tail, stop) =>
          (.ok { name, path, applied := p.applied, passed := p.passed, tail, stop }, p) := by
  unfold file Disk.reading
  cases hopened : d.opened path with
  | error cause => rfl
  | ok found =>
    dsimp only
    rw [fileFrom_eq, Reading.ofReader]
    cases r.deliver target name.id (Reading.ofReaderAt found.1 0 found.2).records
      { p with applied := 0, passed := 0 } with
    | mk result p' =>
      cases result with
      | error e => rfl
      | ok =>
        dsimp only
        cases (Reading.ofReaderAt found.1 0 found.2).ending <;> rfl

/-- The replay of a file that can be read to its end hands over the records of its content. -/
theorem file_of_contents (r : Replay) (target : Target σ) {d : Disk} {path : Path} {bytes : Bytes}
    (hd : d.contents path = .ok bytes) (name : SegmentName) (p : Progress σ) :
    r.file target d name path p =
      match r.deliver target name.id (Scan.ofBytes bytes).records
        { p with applied := 0, passed := 0 } with
      | (.error e, p) => (.error e, p)
      | (.ok (), p) =>
        (.ok { name, path, applied := p.applied, passed := p.passed,
               tail := (Scan.ofBytes bytes).tail, stop := (Scan.ofBytes bytes).stop }, p) := by
  rw [file_eq, Disk.reading_of_contents hd]
  rfl

end Replay

end SegmentLog
