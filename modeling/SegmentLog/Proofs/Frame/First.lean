import Mathlib.Algebra.Group.Nat.Defs
import SegmentLog.Proofs.Frame.Scan

/-!
# The frame at the front of some bytes

`Frame.first` decides whether some bytes begin with a whole frame, and says why if they do not.
Here both answers are put in terms of the bytes alone:

* `first_eq_frame_iff` — a frame is found exactly if the bytes are the frame of a payload that
  can be framed, followed by the rest;
* `first_eq_stop_iff` — each reason to stop is given exactly where `Tail.Describes` says so, so
  that the five reasons exclude each other and leave nothing over but the frames.
-/

namespace SegmentLog

namespace BigEndian

/-- Writing the word spelled by four bytes gives those bytes back. -/
theorem bytes32_word32 {bs : Bytes} (h : bs.length = 4) : bytes32 (word32 bs) = bs := by
  have hlt : value bs < 2 ^ 32 := by
    rw [← digits_value h, value_digits]
    exact Nat.mod_lt _ (by decide)
  rw [bytes32, word32, UInt32.toNat_ofNat', Nat.mod_eq_of_lt hlt, digits_value h]

/-- Writing the word spelled by eight bytes gives those bytes back. -/
theorem bytes64_word64 {bs : Bytes} (h : bs.length = 8) : bytes64 (word64 bs) = bs := by
  have hlt : value bs < 2 ^ 64 := by
    rw [← digits_value h, value_digits]
    exact Nat.mod_lt _ (by decide)
  rw [bytes64, word64, UInt64.toNat_ofNat', Nat.mod_eq_of_lt hlt, digits_value h]

end BigEndian

namespace Frame

/-- The largest length that a header can state: it is a signed word of four bytes. -/
def maxSize : Nat := 2 ^ 31 - 1

/-- The length that some bytes state at their front. -/
def sizeField (bytes : Bytes) : Int32 := (Header.decode (bytes.take overhead)).size

/-- The check value that some bytes state behind the length. -/
def checksumField (bytes : Bytes) : UInt64 := (Header.decode (bytes.take overhead)).checksum

/-- The frame of a payload that keeps its length. -/
def ofPayload (payload : Bytes) : Bytes := ofParts payload.length payload

theorem length_ofPayload (payload : Bytes) :
    (ofPayload payload).length = overhead + payload.length := length_ofParts _ _

/-- Exactly the payloads within the limit are framed, each as its own frame. -/
theorem encode_eq_ok_iff {payload frame : Bytes} {max : Nat} :
    encode payload max = .ok frame ↔
      0 < payload.length ∧ payload.length ≤ max ∧ frame = ofPayload payload := by
  constructor
  · intro h
    rw [encode] at h
    split at h
    · cases h
    · rename_i hc
      cases h
      obtain ⟨hpos, hle⟩ := checkSize_eq_ok_iff.mp hc
      exact ⟨hpos, hle, rfl⟩
  · rintro ⟨hpos, hle, rfl⟩
    rw [encode, checkSize_eq_ok_iff.mpr ⟨hpos, hle⟩, ofPayload]

/-- Whether some bytes begin with the whole frame of a payload. -/
def Begins (bytes : Bytes) : Prop :=
  ∃ payload frame rest, encode payload maxSize = .ok frame ∧ bytes = frame ++ rest

end Frame

/-- A mutation is framed exactly if it declares the length of its payload and that is within the
limit. -/
theorem Mutation.frame_eq_ok_iff {m : Mutation} {frame : Bytes} {max : Nat} :
    m.frame max = .ok frame ↔
      m.payload.length = m.declared ∧ 0 < m.payload.length ∧ m.payload.length ≤ max ∧
        frame = Frame.ofPayload m.payload := by
  constructor
  · intro h
    rw [Mutation.frame] at h
    split at h
    · cases h
    · rename_i hc
      split at h
      · rename_i hdeclared
        cases h
        obtain ⟨hpos, hle⟩ := Frame.checkSize_eq_ok_iff.mp hc
        exact ⟨hdeclared, by omega, by omega, by rw [Frame.ofPayload, hdeclared]⟩
      · cases h
  · rintro ⟨hdeclared, hpos, hle, rfl⟩
    rw [Mutation.frame, ← hdeclared, Frame.checkSize_eq_ok_iff.mpr ⟨hpos, hle⟩]
    exact if_pos rfl

/-- A frame is never empty. -/
theorem Mutation.frame_pos {m : Mutation} {frame : Bytes} {max : Nat}
    (h : m.frame max = .ok frame) : 0 < frame.length := by
  obtain ⟨-, -, -, rfl⟩ := Mutation.frame_eq_ok_iff.mp h
  rw [Frame.length_ofPayload, Frame.overhead]
  exact Nat.lt_add_right _ (by omega)

/-- What the bytes behind the last record look like, for each reason to stop reading there. -/
def Tail.Describes : Tail → Bytes → Prop
  | .clean, rest => rest = []
  | .endMarker, rest => 4 ≤ rest.length ∧ rest.take 4 = [0, 0, 0, 0]
  | .truncated, rest =>
    1 ≤ rest.length ∧ rest.length ≤ 3 ∨
      4 ≤ rest.length ∧ rest.length ≤ 11 ∧ rest.take 4 ≠ [0, 0, 0, 0]
  | .checksumMismatch, rest =>
    12 ≤ rest.length ∧ rest.take 4 ≠ [0, 0, 0, 0] ∧
      Frame.checksumField rest ≠ Frame.checksumOf (Frame.sizeField rest)
  | .invalidSize, rest =>
    12 ≤ rest.length ∧ Frame.checksumField rest = Frame.checksumOf (Frame.sizeField rest) ∧
      (Frame.sizeField rest < 0 ∨
        ((rest.length - 12 : Nat) : Int) < (Frame.sizeField rest).toInt)

namespace Frame

/-! ## Headers -/

theorem sizeBytes_decode {bytes : Bytes} (h : 4 ≤ bytes.length) :
    sizeBytes (Header.decode bytes).size = bytes.take 4 :=
  BigEndian.bytes32_word32 (List.length_take_of_le h)

/-- Writing the header spelled by twelve bytes gives those bytes back. -/
theorem Header.encode_decode {bytes : Bytes} (h : bytes.length = overhead) :
    (Header.decode bytes).encode = bytes := by
  have h12 : bytes.length = 12 := h
  have h8 : (bytes.drop 4).length = 8 := by rw [List.length_drop]; omega
  rw [Header.encode, sizeBytes_decode (by omega), Header.decode, BigEndian.bytes64_word64 h8,
    List.take_append_drop]

/-- A length is zero exactly if its four bytes are. -/
theorem size_decode_eq_endMarker_iff {bytes : Bytes} (h : 4 ≤ bytes.length) :
    (Header.decode bytes).size = endMarker ↔ bytes.take 4 = [0, 0, 0, 0] := by
  rw [← sizeBytes_decode h]
  constructor
  · intro he
    rw [he]
    rfl
  · intro hb
    have hw := BigEndian.word32_bytes32 (Header.decode bytes).size.toUInt32
    rw [show BigEndian.bytes32 (Header.decode bytes).size.toUInt32 = [0, 0, 0, 0] from hb] at hw
    exact (congrArg Int32.ofUInt32 hw).symm

/-! ## Frames -/

/-- The questions that are asked about the front of some bytes, in terms of these bytes. -/
theorem first_eq (bytes : Bytes) :
    first bytes =
      if bytes = [] then .stop .clean
      else if bytes.length < 4 then .stop .truncated
      else if bytes.take 4 = [0, 0, 0, 0] then .stop .endMarker
      else if bytes.length < 12 then .stop .truncated
      else if checksumField bytes ≠ checksumOf (sizeField bytes) then .stop .checksumMismatch
      else if sizeField bytes < 0 ∨
          ((bytes.length - 12 : Nat) : Int) < (sizeField bytes).toInt then .stop .invalidSize
      else .frame ((bytes.drop 12).take (sizeField bytes).toInt.toNat)
        ((bytes.drop 12).drop (sizeField bytes).toInt.toNat) := by
  have hover : overhead = 12 := rfl
  have hlen : (bytes.take overhead).length = min 12 bytes.length := List.length_take
  have hsize : (Header.decode (bytes.take overhead)).size = sizeField bytes := rfl
  have hvalid : (Header.decode (bytes.take overhead)).isValid = true ↔
      checksumField bytes = checksumOf (sizeField bytes) := beq_iff_eq
  simp only [first, hsize]
  by_cases h0 : bytes = []
  · rw [h0]
    rfl
  have hpos : 0 < bytes.length := List.length_pos_iff.mpr h0
  have hne : (bytes.take overhead).isEmpty = false := by
    rw [List.isEmpty_eq_false_iff_exists_mem, ← List.length_pos_iff_exists_mem]
    omega
  rw [if_neg (by rw [hne]; decide), if_neg h0]
  by_cases h4 : bytes.length < 4
  · rw [if_pos (by omega), if_pos h4]
  rw [if_neg (by omega), if_neg h4]
  have hmark : sizeField bytes = endMarker ↔ bytes.take 4 = [0, 0, 0, 0] := by
    rw [← hsize, size_decode_eq_endMarker_iff (by omega), List.take_take]
    rfl
  by_cases hm : bytes.take 4 = [0, 0, 0, 0]
  · rw [if_pos (hmark.mpr hm), if_pos hm]
  rw [if_neg (fun h => hm (hmark.mp h)), if_neg hm]
  by_cases h12 : bytes.length < 12
  · rw [if_pos (by omega), if_pos h12]
  rw [if_neg (by omega), if_neg h12]
  by_cases hc : checksumField bytes = checksumOf (sizeField bytes)
  · rw [if_neg (by rw [hvalid.mpr hc]; decide), if_neg (not_not_intro hc)]
    by_cases hneg : sizeField bytes < 0
    · rw [if_pos hneg, if_pos (.inl hneg)]
    have hnn : 0 ≤ (sizeField bytes).toInt := by
      rw [Int32.lt_iff_toInt_lt, Int32.toInt_zero] at hneg
      omega
    have hshort : ((bytes.drop overhead).take (sizeField bytes).toInt.toNat).length <
        (sizeField bytes).toInt.toNat ↔
        ((bytes.length - 12 : Nat) : Int) < (sizeField bytes).toInt := by
      rw [List.length_take, List.length_drop, overhead]
      omega
    rw [if_neg hneg]
    by_cases hlong : ((bytes.length - 12 : Nat) : Int) < (sizeField bytes).toInt
    · rw [if_pos (hshort.mpr hlong), if_pos (.inr hlong)]
    · rw [if_neg (fun h => hlong (hshort.mp h)), if_neg (fun h => h.elim hneg hlong)]
      rfl
  · have hv : (Header.decode (bytes.take overhead)).isValid = false :=
      Bool.eq_false_iff.mpr fun h => hc (hvalid.mp h)
    rw [if_pos (by rw [hv]; rfl), if_pos hc]

/-- A payload that can be framed is read back from its frame. -/
theorem first_ofPayload {payload : Bytes} (rest : Bytes) (hpos : 0 < payload.length)
    (hle : payload.length ≤ maxSize) :
    first (ofPayload payload ++ rest) = .frame payload rest := by
  have h12 := Header.length_encode (Header.ofSize (Int32.ofNat payload.length))
  have hlen : (ofPayload payload ++ rest).length = 12 + payload.length + rest.length := by
    rw [List.length_append, length_ofPayload, overhead]
  have hint : (Int32.ofNat payload.length).toInt = payload.length :=
    Int32.toInt_ofNat_of_lt (by simp only [maxSize] at hle; omega)
  have hdec : Header.decode ((ofPayload payload ++ rest).take overhead) =
      Header.ofSize (Int32.ofNat payload.length) := by
    rw [ofPayload, ofParts, List.append_assoc, List.take_left' h12, Header.decode_encode]
  have hsize : sizeField (ofPayload payload ++ rest) = Int32.ofNat payload.length := by
    rw [sizeField, hdec, Header.ofSize]
  have hcheck : checksumField (ofPayload payload ++ rest) =
      checksumOf (sizeField (ofPayload payload ++ rest)) := by
    rw [hsize, checksumField, hdec, Header.ofSize]
  have hmark : ¬ (ofPayload payload ++ rest).take 4 = [0, 0, 0, 0] := by
    intro h
    have h4 := @size_decode_eq_endMarker_iff ((ofPayload payload ++ rest).take overhead)
      (by rw [List.length_take, hlen, overhead]; omega)
    rw [List.take_take, show min 4 overhead = 4 from rfl, hdec] at h4
    have he := congrArg Int32.toInt (h4.mpr h)
    simp only [Header.ofSize, hint, endMarker, Int32.toInt_zero] at he
    omega
  have hdrop : (ofPayload payload ++ rest).drop 12 = payload ++ rest := by
    rw [ofPayload, ofParts, List.append_assoc]
    exact List.drop_left' h12
  have hne : ¬ ofPayload payload ++ rest = [] := List.ne_nil_of_length_pos (by omega)
  rw [first_eq, if_neg hne, if_neg (by omega), if_neg hmark,
    if_neg (by omega), if_neg (not_not_intro hcheck), if_neg, hsize, hint, Int.toNat_natCast, hdrop,
    List.take_left' rfl, List.drop_left' rfl]
  rw [Int32.lt_iff_toInt_lt, hsize, hint, Int32.toInt_zero, hlen]
  omega

/-- Bytes in which a frame was found are that frame and what follows it. -/
theorem eq_of_first_eq_frame {bytes payload rest : Bytes} (h : first bytes = .frame payload rest) :
    0 < payload.length ∧ payload.length ≤ maxSize ∧ bytes = ofPayload payload ++ rest := by
  rw [first_eq] at h
  split at h
  · cases h
  split at h
  · cases h
  rename_i h4
  split at h
  · cases h
  rename_i hmark
  split at h
  · cases h
  rename_i h12
  split at h
  · cases h
  rename_i hc
  split at h
  · cases h
  rename_i hrange
  cases h
  rw [not_or, Int32.lt_iff_toInt_lt, Int32.toInt_zero] at hrange
  have hcheck : checksumField bytes = checksumOf (sizeField bytes) := Decidable.not_not.mp hc
  have hlt := (sizeField bytes).toInt_lt
  have hlen : ((bytes.drop 12).take (sizeField bytes).toInt.toNat).length =
      (sizeField bytes).toInt.toNat := by
    rw [List.length_take, List.length_drop]
    omega
  have hne : (sizeField bytes).toInt ≠ 0 := by
    intro h0
    have hz : sizeField bytes = endMarker := Int32.toInt_inj.mp h0
    rw [sizeField, size_decode_eq_endMarker_iff (by rw [List.length_take, overhead]; omega),
      List.take_take] at hz
    exact hmark hz
  have hhead : (Header.ofSize (sizeField bytes)).encode = bytes.take 12 := by
    rw [Header.ofSize, ← hcheck]
    exact Header.encode_decode (by rw [List.length_take, overhead]; omega)
  have hback : Int32.ofNat (sizeField bytes).toInt.toNat = sizeField bytes := by
    rw [← Int32.toInt_inj, Int32.toInt_ofNat_of_lt (by omega)]
    omega
  refine ⟨by omega, by rw [maxSize]; omega, ?_⟩
  rw [ofPayload, ofParts, hlen, hback, hhead, List.append_assoc, List.take_append_drop,
    List.take_append_drop]

/-- A frame is found exactly if the bytes are the frame of a payload within the limit, followed
by the rest. -/
theorem first_eq_frame_iff {bytes payload rest : Bytes} :
    first bytes = .frame payload rest ↔
      0 < payload.length ∧ payload.length ≤ maxSize ∧ bytes = ofPayload payload ++ rest := by
  constructor
  · exact eq_of_first_eq_frame
  · rintro ⟨hpos, hle, rfl⟩
    exact first_ofPayload rest hpos hle

/-- A reason to stop is given exactly where it describes the bytes. -/
theorem first_eq_stop_iff {bytes : Bytes} {tail : Tail} :
    first bytes = .stop tail ↔ tail.Describes bytes := by
  rw [first_eq]
  constructor
  · intro h
    split at h
    · cases h
      assumption
    split at h
    · cases h
      rename_i h0 h4
      exact .inl ⟨List.length_pos_iff.mpr h0, by omega⟩
    rename_i h4
    split at h
    · cases h
      exact ⟨by omega, by assumption⟩
    rename_i hmark
    split at h
    · cases h
      exact .inr ⟨by omega, by omega, hmark⟩
    split at h
    · cases h
      exact ⟨by omega, hmark, by assumption⟩
    rename_i hc
    split at h
    · cases h
      exact ⟨by omega, Decidable.not_not.mp hc, by assumption⟩
    · cases h
  · intro h
    have hne : 1 ≤ bytes.length → ¬ bytes = [] := List.ne_nil_of_length_pos
    cases tail with
    | clean => exact if_pos h
    | endMarker =>
      obtain ⟨h4, hmark⟩ := h
      rw [if_neg (hne (by omega)), if_neg (by omega), if_pos hmark]
    | truncated =>
      rcases h with ⟨h1, h3⟩ | ⟨h4, h11, hmark⟩
      · rw [if_neg (hne h1), if_pos (by omega)]
      · rw [if_neg (hne (by omega)), if_neg (by omega), if_neg hmark, if_pos (by omega)]
    | checksumMismatch =>
      obtain ⟨h12, hmark, hc⟩ := h
      rw [if_neg (hne (by omega)), if_neg (by omega), if_neg hmark, if_neg (by omega), if_pos hc]
    | invalidSize =>
      obtain ⟨h12, hc, hrange⟩ := h
      have hmark : ¬ bytes.take 4 = [0, 0, 0, 0] := by
        -- a length of zero is neither negative nor too large
        intro hm
        rw [← show (bytes.take overhead).take 4 = bytes.take 4 by rw [List.take_take]; rfl,
          ← size_decode_eq_endMarker_iff (by rw [List.length_take, overhead]; omega)] at hm
        have hz : sizeField bytes = 0 := hm
        rw [hz, Int32.lt_iff_toInt_lt, Int32.toInt_zero] at hrange
        omega
      rw [if_neg (hne (by omega)), if_neg (by omega), if_neg hmark, if_neg (by omega),
        if_neg (not_not_intro hc), if_pos hrange]

/-- Bytes begin with a whole frame exactly if one is found there. -/
theorem begins_iff {bytes : Bytes} :
    Begins bytes ↔ ∃ payload rest, first bytes = .frame payload rest := by
  constructor
  · rintro ⟨payload, frame, rest, he, rfl⟩
    obtain ⟨hpos, hle, rfl⟩ := encode_eq_ok_iff.mp he
    exact ⟨payload, rest, first_ofPayload rest hpos hle⟩
  · rintro ⟨payload, rest, h⟩
    obtain ⟨hpos, hle, rfl⟩ := eq_of_first_eq_frame h
    exact ⟨payload, _, rest, encode_eq_ok_iff.mpr ⟨hpos, hle, rfl⟩, rfl⟩

end Frame

end SegmentLog
