import SegmentLog.Proofs.Disk.Reading
import SegmentLog.Proofs.Frame.First

/-!
# Frames from a reader

The frames that are found in a segment file are those of the bytes that arrive, in whatever pieces
they arrive. As long as the reader does not fail, these are all bytes of the file, and the reading
stops where a scan of them stops. A reader that fails has delivered a beginning of the file before,
and its records are read all the same.

* `Frame.readHead_eq`, `Frame.readNext_eq` — one frame, in terms of the bytes that arrive;
* `Reading.ofReader` — reading a file frame by frame;
* `Reading.records_ofReaderAt` — whatever a reader fails with, its records are read before;
* `Scan.read_eq` — a file that is read frame by frame is scanned as its content is.
-/

namespace SegmentLog

namespace Frame

/-! ## What a reader is found to hold -/

variable {r : Reader}

/-- What the head of a frame says, in terms of the bytes. -/
def headOf (bytes : Bytes) : Head :=
  if bytes = [] then .stop .clean
  else if bytes.length < 4 then .stop .truncated
  else if bytes.take 4 = [0, 0, 0, 0] then .stop .endMarker
  else if bytes.length < 12 then .stop .truncated
  else if checksumField bytes ≠ checksumOf (sizeField bytes) then .stop .checksumMismatch
  else .size (sizeField bytes)

/-- The frame at the front of some bytes, in terms of what its head says. -/
theorem first_eq_headOf (bytes : Bytes) :
    first bytes =
      match headOf bytes with
      | .stop tail => .stop tail
      | .size size =>
        if size < 0 ∨ bytes.length - 12 < size.toInt.toNat then .stop .invalidSize
        else .frame ((bytes.drop 12).take size.toInt.toNat)
          ((bytes.drop 12).drop size.toInt.toNat) := by
  rw [first_eq]
  unfold headOf
  split
  · rfl
  split
  · rfl
  split
  · rfl
  split
  · rfl
  split
  · rfl
  have hroom : ((bytes.length - 12 : Nat) : Int) < (sizeField bytes).toInt ↔
      bytes.length - 12 < (sizeField bytes).toInt.toNat := by omega
  simp only [hroom]

theorem word32_take (bytes : Bytes) :
    (⟨BigEndian.word32 (bytes.take 4)⟩ : Int32) = sizeField bytes := by
  simp [sizeField, Header.decode, List.take_take, overhead]

theorem word64_drop (bytes : Bytes) :
    BigEndian.word64 ((bytes.drop 4).take 8) = checksumField bytes := by
  simp [checksumField, Header.decode, List.drop_take, overhead]

/-- What the head of a frame says once its length is there. -/
theorem headOf_of_four {bytes : Bytes} (h4 : 4 ≤ bytes.length) :
    headOf bytes =
      if bytes.take 4 = [0, 0, 0, 0] then .stop .endMarker
      else if bytes.length < 12 then .stop .truncated
      else if checksumField bytes ≠ checksumOf (sizeField bytes) then .stop .checksumMismatch
      else .size (sizeField bytes) := by
  have hne : bytes ≠ [] := List.ne_nil_of_length_pos (by omega)
  rw [headOf, if_neg hne, if_neg (Nat.not_lt.mpr h4)]

/-- How the reading of a head goes on once its length has arrived. -/
theorem readHead_of_four {rest : Reader} (h4 : 4 ≤ r.delivered.length)
    (hfield : Reader.readAtMost 4 r = .ok (r.delivered.take 4, rest)) :
    readHead r =
      if r.delivered.take 4 = [0, 0, 0, 0] then .ok (.stop .endMarker, rest)
      else
        match Reader.readAtMost 8 rest with
        | .error cause => .error cause
        | .ok (check, rest) =>
          if check.length < 8 then .ok (.stop .truncated, rest)
          else if BigEndian.word64 check ≠ checksumOf (sizeField r.delivered) then
            .ok (.stop .checksumMismatch, rest)
          else .ok (.size (sizeField r.delivered), rest) := by
  have hlen : (r.delivered.take 4).length = 4 := List.length_take_of_le h4
  have hmark : sizeField r.delivered = endMarker ↔ r.delivered.take 4 = [0, 0, 0, 0] := by
    rw [← word32_take]
    exact size_decode_eq_endMarker_iff h4
  by_cases hend : r.delivered.take 4 = [0, 0, 0, 0]
  · rw [if_pos hend]
    simp [readHead, hfield, hlen, word32_take, hmark.mpr hend]
  · cases hcheck : Reader.readAtMost 8 rest with
    | error cause => simp [readHead, hfield, hlen, word32_take, hmark, hend, hcheck]
    | ok answer =>
      obtain ⟨check, rest'⟩ := answer
      simp [readHead, hfield, hlen, word32_take, hmark, hend, hcheck]

/-- A head is read as it stands in the bytes that arrive, and a length that can be relied on leaves
what follows the head; or the reader fails before the head is there. -/
theorem readHead_eq (r : Reader) :
    match headOf r.delivered with
    | .size size => ∃ rest, readHead r = .ok (.size size, rest) ∧
        rest.delivered = r.delivered.drop 12 ∧ rest.cause? = r.cause?
    | .stop tail => (∃ rest, readHead r = .ok (.stop tail, rest)) ∨
        ∃ cause, r.cause? = some cause ∧ readHead r = .error cause := by
  rcases r.readAtMost_cases 4 with
    ⟨h4, r₁, hfield, hdelivered, hcause⟩ | ⟨hshort, -, r₁, hfield⟩ | ⟨hshort, cause, hfails, hfield⟩
  · rw [readHead_of_four h4 hfield, headOf_of_four h4]
    by_cases hmark : r.delivered.take 4 = [0, 0, 0, 0]
    · simp only [if_pos hmark]
      exact .inl ⟨r₁, rfl⟩
    simp only [if_neg hmark]
    have hlen₁ : r₁.delivered.length = r.delivered.length - 4 := by simp [hdelivered]
    rcases r₁.readAtMost_cases 8 with
      ⟨h8, r₂, hcheck, hdelivered₂, hcause₂⟩ | ⟨hshort, -, r₂, hcheck⟩ |
      ⟨hshort, cause, hfails, hcheck⟩
    · have hlen₂ : (r₁.delivered.take 8).length = 8 := List.length_take_of_le h8
      have hfull : ¬ (r₁.delivered.take 8).length < 8 := by omega
      have hlong : ¬ r.delivered.length < 12 := by omega
      rw [hcheck]
      dsimp only
      rw [if_neg hfull, if_neg hlong, hdelivered, word64_drop]
      by_cases hvalid : checksumField r.delivered = checksumOf (sizeField r.delivered)
      · simp only [ne_eq, hvalid, not_true_eq_false, if_false]
        refine ⟨r₂, rfl, ?_, hcause₂.trans hcause⟩
        rw [hdelivered₂, hdelivered, List.drop_drop]
      · simp only [ne_eq, hvalid, not_false_eq_true, if_true]
        exact .inl ⟨r₂, rfl⟩
    · rw [hcheck, if_pos (by omega : r.delivered.length < 12)]
      dsimp only
      rw [if_pos hshort]
      exact .inl ⟨r₂, rfl⟩
    · rw [hcheck, if_pos (by omega : r.delivered.length < 12)]
      exact .inr ⟨cause, by rw [← hcause, hfails], rfl⟩
  · by_cases hnil : r.delivered = []
    · simp [readHead, headOf, hfield, hnil]
    · simp [readHead, headOf, hfield, hnil, hshort]
  · have hstop : ∃ tail, headOf r.delivered = .stop tail := by
      by_cases hnil : r.delivered = []
      · exact ⟨.clean, by simp [headOf, hnil]⟩
      · exact ⟨.truncated, by simp [headOf, hnil, hshort]⟩
    obtain ⟨tail, htail⟩ := hstop
    rw [htail]
    exact .inr ⟨cause, hfails, by rw [readHead, hfield]⟩

/-- A frame is read as it stands at the front of the bytes that arrive. Where there is none, the
reading stops or the reader fails; and if the bytes that arrive are all that the file has room for,
it stops for the reason that they give. -/
theorem readNext_eq {room : Nat} (hroom : r.delivered.length - 12 ≤ room) :
    match first r.delivered with
    | .frame payload more => ∃ rest, readNext room r = .ok (.frame payload, rest) ∧
        rest.delivered = more ∧ rest.cause? = r.cause?
    | .stop tail => (∃ tail' rest, readNext room r = .ok (.stop tail', rest) ∧
          (room = r.delivered.length - 12 → tail' = tail)) ∨
        ∃ cause, r.cause? = some cause ∧ readNext room r = .error cause := by
  have hhead := readHead_eq r
  rw [first_eq_headOf]
  unfold readNext
  cases htold : headOf r.delivered with
  | stop tail =>
    rw [htold] at hhead
    rcases hhead with ⟨r₁, hread⟩ | ⟨cause, hfails, hread⟩
    · rw [hread]
      exact .inl ⟨tail, r₁, rfl, fun _ => rfl⟩
    · rw [hread]
      exact .inr ⟨cause, hfails, rfl⟩
  | size size =>
    rw [htold] at hhead
    obtain ⟨r₁, hread, hdelivered, hcause⟩ := hhead
    have hlen₁ : r₁.delivered.length = r.delivered.length - 12 := by
      rw [hdelivered, List.length_drop]
    rw [hread]
    dsimp only
    by_cases hinvalid : size < 0 ∨ room < size.toInt.toNat
    · -- the file is too short for the payload, and so are the bytes that arrive
      have hbeyond : size < 0 ∨ r.delivered.length - 12 < size.toInt.toNat :=
        hinvalid.imp_right fun h => Nat.lt_of_le_of_lt hroom h
      rw [if_pos hinvalid, if_pos hbeyond]
      exact .inl ⟨.invalidSize, r₁, rfl, fun _ => rfl⟩
    rw [if_neg hinvalid]
    rcases r₁.readAtMost_cases size.toInt.toNat with
      ⟨hle, r₂, hpayload, hrest, hcause₂⟩ | ⟨hshort, -, r₂, hpayload⟩ |
      ⟨hshort, cause, hfails, hpayload⟩
    · have hwithin : ¬ (size < 0 ∨ r.delivered.length - 12 < size.toInt.toNat) := by
        rintro (hneg | hlt)
        · exact hinvalid (.inl hneg)
        · omega
      have hlen : ¬ (r₁.delivered.take size.toInt.toNat).length < size.toInt.toNat := by
        rw [List.length_take_of_le hle]
        exact Nat.lt_irrefl _
      rw [hpayload, if_neg hwithin]
      dsimp only
      rw [if_neg hlen, ← hdelivered]
      exact ⟨r₂, rfl, hrest, hcause₂.trans hcause⟩
    · -- the file is long enough for the payload, but less of it arrives
      have hbeyond : size < 0 ∨ r.delivered.length - 12 < size.toInt.toNat := .inr (by omega)
      rw [hpayload, if_pos hbeyond]
      dsimp only
      rw [if_pos hshort]
      exact .inl ⟨.truncated, r₂, rfl, fun hexact => absurd hinvalid (by simp; omega)⟩
    · have hbeyond : size < 0 ∨ r.delivered.length - 12 < size.toInt.toNat := .inr (by omega)
      rw [hpayload, if_pos hbeyond]
      exact .inr ⟨cause, hcause ▸ hfails, rfl⟩

end Frame

/-- What is read from a segment file: the payloads with the offsets of their frames, and why and
where the reading stopped, or why it could not go on. -/
structure Reading where
  records : List (Nat × Bytes)
  ending : Except DiskError (Tail × Nat)

namespace Reading

/-- Reads a file of so many bytes frame by frame, from an offset on. -/
def ofReaderAt (size offset : Nat) (r : Reader) : Reading :=
  match _h : Frame.readNext (size - (offset + Frame.overhead)) r with
  | .error cause => ⟨[], .error cause⟩
  | .ok (.stop tail, _) => ⟨[], .ok (tail, offset)⟩
  | .ok (.frame payload, rest) =>
    let more := ofReaderAt size (offset + Frame.overhead + payload.length) rest
    { more with records := (offset, payload) :: more.records }
termination_by r.stored
decreasing_by
  have := Frame.stored_readNext _h
  simp only [Frame.overhead] at this
  omega

/-- Reads a file of so many bytes frame by frame. -/
def ofReader (size : Nat) (r : Reader) : Reading := ofReaderAt size 0 r

/-- A file that is read to where its records stop. -/
def ofScan (s : Scan) : Reading := ⟨s.records, .ok (s.tail, s.stop)⟩

/-- What a scan tells of what was read, as far as it was read. -/
def scan (x : Reading) : Scan where
  records := x.records
  tail := (x.ending.toOption.map (·.1)).getD .clean
  stop := (x.ending.toOption.map (·.2)).getD 0

theorem scan_ofScan (s : Scan) : (ofScan s).scan = s := rfl

theorem ofReaderAt_error {size offset : Nat} {r : Reader} {cause : DiskError}
    (h : Frame.readNext (size - (offset + Frame.overhead)) r = .error cause) :
    ofReaderAt size offset r = ⟨[], .error cause⟩ := by
  rw [ofReaderAt]
  split <;> simp_all

theorem ofReaderAt_stop {size offset : Nat} {r rest : Reader} {tail : Tail}
    (h : Frame.readNext (size - (offset + Frame.overhead)) r = .ok (.stop tail, rest)) :
    ofReaderAt size offset r = ⟨[], .ok (tail, offset)⟩ := by
  rw [ofReaderAt]
  split <;> simp_all

theorem ofReaderAt_frame {size offset : Nat} {r rest : Reader} {payload : Bytes}
    (h : Frame.readNext (size - (offset + Frame.overhead)) r = .ok (.frame payload, rest)) :
    ofReaderAt size offset r =
      { ofReaderAt size (offset + Frame.overhead + payload.length) rest with
        records := (offset, payload) ::
          (ofReaderAt size (offset + Frame.overhead + payload.length) rest).records } := by
  rw [ofReaderAt]
  split <;> simp_all

/-- Behind the head of a frame, a file has room for the bytes that arrive. -/
theorem room_le {size offset : Nat} {r : Reader} (h : offset + r.delivered.length ≤ size) :
    r.delivered.length - 12 ≤ size - (offset + Frame.overhead) := by
  rw [Frame.overhead]
  omega

/-- Whatever a reader fails with, the records are those of the bytes that it delivers. -/
theorem records_ofReaderAt {size offset : Nat} {r : Reader}
    (hsize : offset + r.delivered.length ≤ size) :
    (ofReaderAt size offset r).records = (Scan.ofBytesAt offset r.delivered).records := by
  have hnext := Frame.readNext_eq (room_le hsize)
  cases hfirst : Frame.first r.delivered with
  | stop tail =>
    rw [hfirst] at hnext
    rw [Scan.ofBytesAt_stop hfirst]
    rcases hnext with ⟨tail', rest, hread, -⟩ | ⟨cause, -, hread⟩
    · rw [ofReaderAt_stop hread]
    · rw [ofReaderAt_error hread]
  | frame payload more =>
    rw [hfirst] at hnext
    obtain ⟨rest, hread, hmore, -⟩ := hnext
    have hlen := Frame.first_length hfirst
    have hstored := Frame.stored_readNext hread
    have hsize' : offset + Frame.overhead + payload.length + rest.delivered.length ≤ size := by
      rw [hmore]
      omega
    rw [ofReaderAt_frame hread, Scan.ofBytesAt_frame hfirst, records_ofReaderAt hsize', hmore]
termination_by r.stored
decreasing_by
  rw [Frame.overhead] at hstored
  omega

/-- A reader that does not fail is read as the bytes that it delivers are scanned. -/
theorem ofReaderAt_eq {size offset : Nat} {r : Reader} (hr : r.cause? = none)
    (hsize : size = offset + r.delivered.length) :
    ofReaderAt size offset r = ofScan (Scan.ofBytesAt offset r.delivered) := by
  have hnext := Frame.readNext_eq (room_le (Nat.le_of_eq hsize.symm))
  have hroom : size - (offset + Frame.overhead) = r.delivered.length - 12 := by
    rw [Frame.overhead]
    omega
  cases hfirst : Frame.first r.delivered with
  | stop tail =>
    rw [hfirst] at hnext
    rcases hnext with ⟨tail', rest, hread, htail⟩ | ⟨cause, hfails, -⟩
    · rw [ofReaderAt_stop hread, Scan.ofBytesAt_stop hfirst, htail hroom]
      rfl
    · rw [hr] at hfails
      cases hfails
  | frame payload more =>
    rw [hfirst] at hnext
    obtain ⟨rest, hread, hmore, hcause⟩ := hnext
    have hlen := Frame.first_length hfirst
    have hstored := Frame.stored_readNext hread
    have hsize' : size = offset + Frame.overhead + payload.length + rest.delivered.length := by
      rw [hmore]
      omega
    rw [ofReaderAt_frame hread, Scan.ofBytesAt_frame hfirst,
      ofReaderAt_eq (hcause.trans hr) hsize', hmore]
    rfl
termination_by r.stored
decreasing_by
  rw [Frame.overhead] at hstored
  omega

end Reading

namespace Scan

/-- Reads the records of a file of so many bytes, if it can be read to where they stop. -/
def read (size : Nat) (r : Reader) : Except DiskError Scan :=
  match Reading.ofReader size r with
  | ⟨_, .error cause⟩ => .error cause
  | ⟨records, .ok (tail, stop)⟩ => .ok ⟨records, tail, stop⟩

/-- A file that is read frame by frame is scanned as its content is, in whatever pieces it
arrives. -/
theorem read_eq {r : Reader} (hr : r.cause? = none) :
    read r.delivered.length r = .ok (ofBytes r.delivered) := by
  rw [read, Reading.ofReader, Reading.ofReaderAt_eq hr (Nat.zero_add _).symm]
  rfl

end Scan

end SegmentLog
