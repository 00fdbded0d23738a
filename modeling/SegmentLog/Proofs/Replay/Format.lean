import SegmentLog.Proofs.Disk.Files
import SegmentLog.Proofs.Frame.Language
import SegmentLog.Proofs.Frame.Reading
import SegmentLog.Proofs.Replay.Applying

/-!
# One format

Frames are written in two places, for mutations and for plain payloads, and their heads are read in
two places, from twelve bytes at hand and from a file that is replayed. These four agree on the
format.

* `Mutation.frame_ok_iff`, `Mutation.frame_eq` — which mutations are framed, and how;
* `Disk.reader_of_contents` — what a file is read from;
* `Frame.headOf_eq` — the head that a replay reads, in terms of the header that is spelled;
* `Replay.file_stops_at_front_iff` — where a replay finds no frame at the front of a file;
* `Replay.one_format` — the agreement.
-/

namespace SegmentLog

namespace Mutation

/-- A mutation is framed exactly if it declares a length within the limit and keeps it. -/
theorem frame_ok_iff {m : Mutation} {max : Nat} :
    (∃ frame, m.frame max = .ok frame) ↔
      1 ≤ m.declared ∧ m.declared ≤ max ∧ m.payload.length = m.declared := by
  constructor
  · rintro ⟨frame, h⟩
    obtain ⟨hkept, hpos, hle, -⟩ := frame_eq_ok_iff.mp h
    exact ⟨by omega, by omega, hkept⟩
  · rintro ⟨hpos, hle, hkept⟩
    exact ⟨_, frame_eq_ok_iff.mpr ⟨hkept, by omega, by omega, rfl⟩⟩

/-- The frame of a mutation is the header of the length it declares, and its payload. -/
theorem frame_eq {m : Mutation} {max : Nat} {frame : Bytes} (h : m.frame max = .ok frame) :
    frame = (Frame.Header.ofSize (Int32.ofNat m.declared)).encode ++ m.payload := by
  obtain ⟨hkept, -, -, rfl⟩ := frame_eq_ok_iff.mp h
  rw [Frame.ofPayload, Frame.ofParts, hkept]

end Mutation

section
variable {d : Disk} {path : Path} {content : Bytes}

/-- A file that can be read is opened with its length and a reader of all that it holds. -/
theorem Disk.reader_of_contents (h : d.contents path = .ok content) :
    d.size path = .ok content.length ∧
      ∃ reader, d.reader path = .ok reader ∧ reader.delivered = content ∧ reader.cause? = none := by
  obtain ⟨q, id, hfind, hfault, rfl⟩ := find_of_contents h
  refine ⟨size_of_find hfind, .ofBytes (d.content id), reader_of_find hfind hfault,
    Reader.delivered_ofBytes _, Reader.cause?_ofBytes _⟩

namespace Frame

/-- A header is valid exactly if the check value that the bytes state is the one of the length that
they state. -/
theorem isValid_decode_take (content : Bytes) :
    (Header.decode (content.take 12)).isValid = true ↔
      checksumField content = checksumOf (sizeField content) := beq_iff_eq

/-- Behind a length that is not zero, the header that twelve bytes spell is the head that is read of
them. -/
theorem headOf_eq (h12 : 12 ≤ content.length) (hmark : content.take 4 ≠ [0, 0, 0, 0]) :
    headOf content =
      if (Header.decode (content.take 12)).isValid then
        .size (Header.decode (content.take 12)).size
      else .stop .checksumMismatch := by
  rw [headOf_of_four (by omega), if_neg hmark, if_neg (Nat.not_lt.mpr h12)]
  simp only [isValid_decode_take, ne_eq, ite_not]
  rfl

/-- The check value at the front of some bytes is wrong exactly if the header there is not valid. -/
theorem describes_checksumMismatch_iff (h12 : 12 ≤ content.length)
    (hmark : content.take 4 ≠ [0, 0, 0, 0]) :
    Tail.checksumMismatch.Describes content ↔
      ¬ (Header.decode (content.take 12)).isValid = true := by
  rw [isValid_decode_take]
  exact ⟨fun h => h.2.2, fun h => ⟨h12, hmark, h⟩⟩

end Frame

namespace Scan

/-- A scan relies on the length that a valid header states: so many bytes are the first payload, or
the length is out of range. -/
theorem ofBytes_of_isValid (h12 : 12 ≤ content.length) (hmark : content.take 4 ≠ [0, 0, 0, 0])
    (hvalid : (Frame.Header.decode (content.take 12)).isValid = true) :
    if (Frame.Header.decode (content.take 12)).size < 0 ∨
        content.length - 12 < (Frame.Header.decode (content.take 12)).size.toInt.toNat then
      ofBytes content = ⟨[], .invalidSize, 0⟩
    else
      (ofBytes content).records.head? = some
        (0, (content.drop 12).take (Frame.Header.decode (content.take 12)).size.toInt.toNat) := by
  have hfirst := Frame.first_eq_headOf content
  rw [Frame.headOf_eq h12 hmark, if_pos hvalid] at hfirst
  dsimp only at hfirst
  split at hfirst
  · rename_i hrange
    rw [if_pos hrange]
    exact ofBytesAt_stop hfirst 0
  · rename_i hrange
    rw [if_neg hrange, ofBytes, ofBytesAt_frame hfirst, List.head?_cons]

/-- A scan stops at the front of some bytes exactly if there is no frame there, and gives the reason
that describes them. -/
theorem stops_at_front_iff (content : Bytes) (tail : Tail) :
    (ofBytes content).stop = 0 ∧ (ofBytes content).tail = tail ↔ tail.Describes content := by
  rw [← Frame.first_eq_stop_iff]
  constructor
  · rintro ⟨hstop, htail⟩
    cases hfirst : Frame.first content with
    | stop tail' =>
      rw [ofBytes, ofBytesAt_stop hfirst] at htail
      exact congrArg Frame.First.stop htail
    | frame payload rest =>
      -- a record takes up at least the bytes of its header
      have hsum := lengths_add_up content
      rw [hstop, ofBytes, ofBytesAt_frame hfirst, List.length_cons, Frame.overhead] at hsum
      omega
  · intro hfirst
    rw [ofBytes, ofBytesAt_stop hfirst]
    exact ⟨rfl, rfl⟩

end Scan

namespace Replay

variable {σ : Type}

/-- The replay of a file stops at its front exactly if there is no frame there, and reports the
reason that describes what the file holds. No floor and no target makes a difference. -/
theorem file_stops_at_front_iff (hd : d.contents path = .ok content) (r : Replay)
    (target : Target σ) (name : SegmentName) (p : Progress σ) (tail : Tail) :
    (∃ f p', r.file target d name path p = (.ok f, p') ∧ f.stop = 0 ∧ f.tail = tail) ↔
      tail.Describes content := by
  rw [← Scan.stops_at_front_iff, file_of_contents r target hd]
  constructor
  · rintro ⟨f, p', hfile, hstop, htail⟩
    split at hfile
    · cases hfile
    · cases hfile
      exact ⟨hstop, htail⟩
  · rintro ⟨hstop, htail⟩
    have hnone : (Scan.ofBytes content).records = [] := by
      have hsum := Scan.lengths_add_up content
      rw [hstop, Frame.overhead] at hsum
      exact List.eq_nil_of_length_eq_zero (by omega)
    rw [hnone, deliver_nil]
    exact ⟨_, _, rfl, hstop, htail⟩

end Replay

end

namespace Replay

/-- **There is one format of frames.** A mutation that is nothing but its payload is framed, or
refused, as the payload is. Any mutation is framed exactly if it declares a length within the limit
and writes out so many bytes, and then its frame is the header of twelve bytes with that length and
its check value, and these bytes. And of a file that begins with twelve bytes and a length that is
not zero, a replay finds the check value to be wrong exactly if the header that these twelve bytes
spell is not valid; if it is valid, the length that a reader of the file comes to rely on is the one
in the header: so many bytes are the first payload, or the length is out of range. -/
theorem one_format :
    (∀ (partitions : List Partition) (payload : Bytes) (max : Nat),
      (Mutation.raw partitions payload).frame max = Frame.encode payload max) ∧
    (∀ (m : Mutation) (max : Nat),
      ((∃ frame, m.frame max = .ok frame) ↔
        1 ≤ m.declared ∧ m.declared ≤ max ∧ m.payload.length = m.declared) ∧
      ∀ frame, m.frame max = .ok frame →
        ∃ header : Bytes, header.length = 12 ∧
          header = Frame.sizeBytes (Int32.ofNat m.declared) ++
            BigEndian.bytes64 (Frame.checksumOf (Int32.ofNat m.declared)) ∧
          frame = header ++ m.payload) ∧
    ∀ content : Bytes, 12 ≤ content.length → content.take 4 ≠ [0, 0, 0, 0] →
      ∀ header, Frame.Header.decode (content.take 12) = header →
        (∀ {σ : Type} (r : Replay) (target : Target σ) (d : Disk) (name : SegmentName)
          (path : Path) (p : Progress σ), d.contents path = .ok content →
          (header.isValid = true ↔ ¬ ∃ f p', r.file target d name path p = (.ok f, p') ∧
            f.stop = 0 ∧ f.tail = .checksumMismatch) ∧
          d.size path = .ok content.length ∧
          ∃ reader, d.reader path = .ok reader ∧ reader.delivered = content ∧
            reader.cause? = none) ∧
        (∀ reader : Reader, reader.delivered = content → reader.cause? = none →
          (∃ rest, Frame.readHead reader =
            .ok (if header.isValid then .size header.size else .stop .checksumMismatch, rest)) ∧
          Scan.read content.length reader = .ok (Scan.ofBytes content)) ∧
        (header.isValid = true →
          if header.size < 0 ∨ content.length - 12 < header.size.toInt.toNat then
            Scan.ofBytes content = ⟨[], .invalidSize, 0⟩
          else
            (Scan.ofBytes content).records.head? =
              some (0, (content.drop 12).take header.size.toInt.toNat)) := by
  refine ⟨Mutation.frame_raw, fun m max => ⟨Mutation.frame_ok_iff, fun frame h => ?_⟩, ?_⟩
  · exact ⟨(Frame.Header.ofSize (Int32.ofNat m.declared)).encode, Frame.Header.length_encode _, rfl,
      Mutation.frame_eq h⟩
  · rintro content h12 hmark header rfl
    refine ⟨fun r target d name path p hd => ⟨?_, Disk.reader_of_contents hd⟩,
      fun reader hreader hcause => ⟨?_, ?_⟩, Scan.ofBytes_of_isValid h12 hmark⟩
    · rw [file_stops_at_front_iff hd, Frame.describes_checksumMismatch_iff h12 hmark, not_not]
    · have hhead := Frame.readHead_eq reader
      rw [hreader, Frame.headOf_eq h12 hmark] at hhead
      by_cases hvalid : (Frame.Header.decode (content.take 12)).isValid = true
      · simp only [if_pos hvalid] at hhead ⊢
        obtain ⟨rest, hread, -⟩ := hhead
        exact ⟨rest, hread⟩
      · simp only [if_neg hvalid, hcause, reduceCtorEq, false_and, exists_false,
          or_false] at hhead ⊢
        exact hhead
    · rw [← hreader]
      exact Scan.read_eq hcause

/-- A payload of three bytes has one frame, and a mutation that declares four bytes but writes out
these three has none. In a file with that frame the three bytes are found again; once the length in
it is altered, they are not. -/
theorem one_format_three_bytes :
    (Mutation.raw [] [1, 2, 3]).frame 3 = Frame.encode [1, 2, 3] 3 ∧
    (¬ ∃ frame, (⟨[], 4, [1, 2, 3]⟩ : Mutation).frame 9 = .ok frame) ∧
    (Scan.ofBytes (Frame.ofPayload [1, 2, 3] ++ [0])).records.head? = some (0, [1, 2, 3]) ∧
    ∃ f p', ({} : Replay).file (Target.total fun q x (s : List (Position × Bytes)) => s ++ [(q, x)])
        (({} : Disk).put (.ofString "CommitLog-3-7.log")
          ([0, 0, 0, 2] ++ (Frame.ofPayload [1, 2, 3]).drop 4))
        ⟨7, 3⟩ (.ofString "CommitLog-3-7.log") { state := [] } = (.ok f, p') ∧
      f.stop = 0 ∧ f.tail = .checksumMismatch := by
  obtain ⟨hraw, hframed, hread⟩ := one_format
  refine ⟨hraw [] [1, 2, 3] 3, ?_, ?_, ?_⟩
  · rw [(hframed _ 9).1]
    decide
  · have hvalid : (Frame.Header.decode
        ((Frame.ofPayload [1, 2, 3] ++ [0]).take 12)).isValid = true := by decide +kernel
    have hfound := (hread (Frame.ofPayload [1, 2, 3] ++ [0]) (by decide +kernel)
      (by decide +kernel) _ rfl).2.2 hvalid
    rw [if_neg (by decide +kernel)] at hfound
    rw [hfound]
    decide +kernel
  · have hinvalid : ¬ (Frame.Header.decode
        (([0, 0, 0, 2] ++ (Frame.ofPayload [1, 2, 3]).drop 4).take 12)).isValid = true := by
      decide +kernel
    have hd : (({} : Disk).put (.ofString "CommitLog-3-7.log")
        ([0, 0, 0, 2] ++ (Frame.ofPayload [1, 2, 3]).drop 4)).contents
          (.ofString "CommitLog-3-7.log") =
        .ok ([0, 0, 0, 2] ++ (Frame.ofPayload [1, 2, 3]).drop 4) := by rfl
    by_contra hnone
    exact hinvalid (((hread _ (by decide +kernel) (by decide +kernel) _ rfl).1 _ _ _ _ _ _ hd).1.mpr
      hnone)

end Replay

end SegmentLog
