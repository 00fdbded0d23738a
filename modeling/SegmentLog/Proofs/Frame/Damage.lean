import SegmentLog.Proofs.Bytes.Crc32
import SegmentLog.Proofs.Frame.Language

/-!
# Damage to a header

A header is twelve bytes, of which the last eight follow from the first four. Since no two
lengths share a check value, a header of which only the length or only the check value was
altered never passes for one that was written, whatever the bytes were altered to. A scan of the
segment gets as far as the damaged frame, and no further.

* `isValid_decode_iff` — which check value a length needs, in terms of the bytes;
* `describes_altered` — how a header looks after such damage;
* `ofBytes_altered` — what a scan still finds.
-/

namespace SegmentLog

/-- Whether some bytes became others because a number of them, from a place on, were altered. -/
def AltersOnly (start width : Nat) (bytes bytes' : Bytes) : Prop :=
  ∃ front old new back, bytes = front ++ (old ++ back) ∧ bytes' = front ++ (new ++ back) ∧
    front.length = start ∧ old.length = width ∧ new.length = width ∧ old ≠ new

/-- What stands at the place that was altered. -/
theorem AltersOnly.at_place {bytes bytes' front old back : Bytes}
    (h : AltersOnly front.length old.length bytes bytes') (hb : bytes = front ++ (old ++ back)) :
    ∃ new, bytes' = front ++ (new ++ back) ∧ new.length = old.length ∧ old ≠ new := by
  obtain ⟨front', old', new, back', rfl, rfl, hfront, hold, hnew, hne⟩ := h
  obtain ⟨rfl, hrest⟩ := List.append_inj hb hfront
  obtain ⟨rfl, rfl⟩ := List.append_inj hrest hold
  exact ⟨new, rfl, hnew, hne⟩

namespace Frame

/-- The bytes of the check value that a length needs. -/
def checkBytes (size : Bytes) : Bytes := BigEndian.bytes64 (Crc32.crc32 size).toUInt64

theorem length_checkBytes (size : Bytes) : (checkBytes size).length = 8 :=
  BigEndian.length_bytes64 _

/-- No two lengths need the same check value. -/
theorem checkBytes_inj {size size' : Bytes} (h4 : size.length = 4) (h4' : size'.length = 4)
    (h : checkBytes size = checkBytes size') : size = size' := by
  have hword := congrArg BigEndian.word64 h
  rw [checkBytes, checkBytes, BigEndian.word64_bytes64, BigEndian.word64_bytes64] at hword
  have hcrc : Crc32.crc32 size = Crc32.crc32 size' := by
    rw [← UInt32.toNat_inj, ← UInt32.toNat_toUInt64, hword, UInt32.toNat_toUInt64]
  exact Crc32.crc32_inj (h4.trans h4'.symm) (Nat.le_of_eq h4) hcrc

/-- Twelve bytes are a valid header exactly if the check value is the one that the length
needs. -/
theorem isValid_decode_iff {size check : Bytes} (h4 : size.length = 4) (h8 : check.length = 8) :
    (Header.decode (size ++ check)).isValid = true ↔ check = checkBytes size := by
  have hsize : checksumOf (Header.decode (size ++ check)).size = (Crc32.crc32 size).toUInt64 := by
    rw [checksumOf, sizeBytes_decode (by rw [List.length_append]; omega), List.take_left' h4]
  have hcheck : (Header.decode (size ++ check)).checksum = BigEndian.word64 check := by
    rw [Header.decode, List.drop_left' h4]
  rw [Header.isValid, beq_iff_eq, hsize, hcheck, checkBytes]
  constructor
  · intro h
    rw [← h, BigEndian.bytes64_word64 h8]
  · intro h
    rw [h, BigEndian.word64_bytes64]

/-- The frame of a payload begins with its length, which is not zero, and the check value that
this length needs. -/
theorem exists_size_ofPayload {payload : Bytes} (h : Framable payload) :
    ∃ size : Bytes, size.length = 4 ∧ size ≠ [0, 0, 0, 0] ∧
      ofPayload payload = size ++ (checkBytes size ++ payload) := by
  refine ⟨sizeBytes (Int32.ofNat payload.length), BigEndian.length_bytes32 _, ?_, ?_⟩
  · intro hzero
    have hfirst := first_ofPayload [] h.1 h.2
    have hmark : first (ofPayload payload ++ []) = .stop .endMarker := by
      refine first_eq_stop_iff.mpr ⟨?_, ?_⟩
      · rw [List.length_append, length_ofPayload, overhead]
        omega
      · rw [ofPayload, ofParts, Header.encode, Header.ofSize, hzero]
        rfl
    rw [hfirst] at hmark
    cases hmark
  · rw [ofPayload, ofParts, Header.encode, Header.ofSize, List.append_assoc]
    rfl

/-- The reason to stop at a header that is not valid. -/
def stopAt (size : Bytes) : Tail := if size = [0, 0, 0, 0] then .endMarker else .checksumMismatch

/-- A header whose check value is not the one that its length needs reads as the end marker or as
damaged. -/
theorem describes_altered {size check : Bytes} (h4 : size.length = 4) (h8 : check.length = 8)
    (hne : check ≠ checkBytes size) (rest : Bytes) :
    (stopAt size).Describes (size ++ (check ++ rest)) := by
  have hlen : (size ++ (check ++ rest)).length = 12 + rest.length := by
    rw [List.length_append, List.length_append]
    omega
  have htake : (size ++ (check ++ rest)).take 4 = size := List.take_left' h4
  rw [stopAt]
  split
  · rename_i hzero
    exact ⟨by omega, by rw [htake, hzero]⟩
  · rename_i hsize
    refine ⟨by omega, by rwa [htake], ?_⟩
    have hhead : (size ++ (check ++ rest)).take overhead = size ++ check := by
      rw [← List.append_assoc]
      exact List.take_left' (by rw [List.length_append, h4, h8, overhead])
    have hvalid := mt (isValid_decode_iff h4 h8).mp hne
    rw [Header.isValid, beq_iff_eq] at hvalid
    rwa [checksumField, sizeField, hhead]

/-- A record that was laid out stands behind the frames of those before it. -/
theorem exists_of_mem_layOut {offset o : Nat} {payloads : List Bytes} {x : Bytes}
    (h : (o, x) ∈ layOut offset payloads) :
    ∃ before after, payloads = before ++ x :: after ∧ o = offset + (spell before).length := by
  induction payloads generalizing offset with
  | nil => cases h
  | cons y ys ih =>
    rcases List.mem_cons.mp h with he | h
    · cases he
      exact ⟨[], ys, rfl, rfl⟩
    · obtain ⟨before, after, rfl, rfl⟩ := ih h
      refine ⟨y :: before, after, rfl, ?_⟩
      rw [length_spell_cons, Nat.add_assoc, Nat.add_assoc, Nat.add_assoc]

end Frame

namespace Scan

open SegmentLog.Frame

/-- If only the length or only the check value of one record was altered, a scan finds the records
before it, and stops at the place where it stood. -/
theorem ofBytes_altered {bytes bytes' : Bytes} {o : Nat} {x : Bytes}
    (hrecord : (o, x) ∈ (ofBytes bytes).records)
    (halter : AltersOnly o 4 bytes bytes' ∨ AltersOnly (o + 4) 8 bytes bytes') :
    ∃ before after, (ofBytes bytes).records = before ++ (o, x) :: after ∧
      ofBytes bytes' = ⟨before, stopAt ((bytes'.drop o).take 4), o⟩ := by
  obtain ⟨payloads, rest, tail, hall, rfl, ht⟩ := exists_spell bytes
  rw [ofBytes_spell hall ht] at hrecord ⊢
  obtain ⟨before, after, rfl, rfl⟩ := exists_of_mem_layOut hrecord
  rw [Nat.zero_add] at halter ⊢
  have hx : Framable x := hall x (by simp)
  have hbefore : ∀ y ∈ before, Framable y := fun y hy => hall y (List.mem_append_left _ hy)
  obtain ⟨size, h4, hpos, hframe⟩ := exists_size_ofPayload hx
  have hbytes : spell (before ++ x :: after) ++ rest =
      spell before ++ (size ++ (checkBytes size ++ (x ++ (spell after ++ rest)))) := by
    simp only [spell_append, spell_cons, hframe, List.append_assoc]
  rw [hbytes] at halter
  -- either way, what stands behind the frames before is a header that is not valid
  obtain ⟨size', check', hbytes', h4', h8', hne⟩ : ∃ size' check' : Bytes,
      bytes' = spell before ++ (size' ++ (check' ++ (x ++ (spell after ++ rest)))) ∧
        size'.length = 4 ∧ check'.length = 8 ∧ check' ≠ checkBytes size' := by
    rcases halter with halter | halter
    · rw [← h4] at halter
      obtain ⟨size', rfl, hlen, hsize⟩ := halter.at_place rfl
      have h4' : size'.length = 4 := hlen.trans h4
      exact ⟨size', _, rfl, h4', length_checkBytes _,
        fun he => hsize (checkBytes_inj h4 h4' he)⟩
    · have hplace : (spell before).length + 4 = (spell before ++ size).length := by
        rw [List.length_append, h4]
      rw [hplace, ← length_checkBytes size, ← List.append_assoc] at halter
      obtain ⟨check', rfl, hlen, hcheck⟩ := halter.at_place rfl
      exact ⟨size, check', by rw [List.append_assoc], h4, hlen.trans (length_checkBytes _),
        hcheck.symm⟩
  have hscan := ofBytes_spell hbefore (describes_altered h4' h8' hne (x ++ (spell after ++ rest)))
  refine ⟨layOut 0 before, layOut ((spell before).length + overhead + x.length) after, ?_, ?_⟩
  · rw [layOut_append, Nat.zero_add, layOut]
  · rw [hbytes', hscan, List.drop_left' rfl, List.take_left' h4']

end Scan

end SegmentLog
