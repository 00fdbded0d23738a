import SegmentLog.Proofs.Frame.Language

/-!
# Scans of bytes that were cut off

Where a file was cut off, a scan of what is left finds the records that are still whole, and no
other ones. That the bytes are frames at all is not needed: behind garbage no record is found,
neither before the cut nor after it.

* `first_take`, `first_take_torn` — the frame at the front, if it is left whole and if it is not;
* `ofBytes_take` — the records before the cut and those behind it.
-/

namespace SegmentLog

namespace Frame

variable {bytes payload rest : Bytes} {n : Nat}

/-- Bytes that begin with no whole frame do not begin with one when they are cut off. -/
theorem first_take_stop {tail : Tail} (h : first bytes = .stop tail) (n : Nat) :
    ∃ tail', first (bytes.take n) = .stop tail' := by
  cases hf : first (bytes.take n) with
  | stop tail' => exact ⟨tail', rfl⟩
  | frame payload rest =>
    obtain ⟨hpos, hle, hb⟩ := eq_of_first_eq_frame hf
    -- a frame at the front of what is left is one at the front of the whole bytes
    rw [← List.take_append_drop n bytes, hb, List.append_assoc, first_ofPayload _ hpos hle] at h
    cases h

/-- A frame that ends before the cut is still found. -/
theorem first_take (h : first bytes = .frame payload rest) (hn : overhead + payload.length ≤ n) :
    first (bytes.take n) = .frame payload (rest.take (n - (overhead + payload.length))) := by
  obtain ⟨hpos, hle, rfl⟩ := eq_of_first_eq_frame h
  rw [List.take_append, List.take_of_length_le (by rwa [length_ofPayload]), length_ofPayload,
    first_ofPayload _ hpos hle]

/-- A frame that reaches beyond the cut is not found any more. -/
theorem first_take_torn (h : first bytes = .frame payload rest)
    (hn : n < overhead + payload.length) : ∃ tail, first (bytes.take n) = .stop tail := by
  obtain ⟨hpos, hle, rfl⟩ := eq_of_first_eq_frame h
  have htake : (ofPayload payload ++ rest).take n = (ofPayload payload).take n :=
    List.take_append_of_le_length (by rw [length_ofPayload]; omega)
  obtain ⟨tail, htail⟩ := exists_describes_of_torn ⟨hpos, hle⟩ (List.take_prefix n _)
    (by rw [List.length_take, length_ofPayload]; omega)
  exact ⟨tail, by rw [htake, first_eq_stop_iff.mpr htail]⟩

end Frame

namespace Scan

open SegmentLog.Frame

/-- A scan finds no record before the place where it begins. -/
theorem le_of_mem_records {offset : Nat} {bytes : Bytes} {r : Nat × Bytes}
    (h : r ∈ (ofBytesAt offset bytes).records) : offset ≤ r.1 := by
  obtain ⟨payloads, rest, tail, hall, rfl, ht⟩ := exists_spell bytes
  rw [ofBytesAt_spell hall, ofBytesAt_stop (first_eq_stop_iff.mpr ht), List.append_nil] at h
  exact le_of_mem_layOut h

/-- In the front of some bytes, a scan finds the records whose frames end before the cut; those
that it finds only in the whole bytes follow them, and end behind it. -/
theorem ofBytesAt_take (offset : Nat) (bytes : Bytes) (n : Nat) :
    ∃ later, (ofBytesAt offset bytes).records = (ofBytesAt offset (bytes.take n)).records ++ later ∧
      (∀ r ∈ (ofBytesAt offset (bytes.take n)).records,
        r.1 + overhead + r.2.length ≤ offset + n) ∧
      ∀ r ∈ later, offset + n < r.1 + overhead + r.2.length := by
  induction offset, bytes using ofBytesAt.induct generalizing n with
  | case1 offset bytes tail h =>
    obtain ⟨tail', h'⟩ := first_take_stop h n
    rw [ofBytesAt_stop h, ofBytesAt_stop h']
    exact ⟨[], rfl, by simp, by simp⟩
  | case2 offset bytes payload rest h ih =>
    by_cases hn : overhead + payload.length ≤ n
    · -- the frame is left whole, and the cut lies in what follows it
      obtain ⟨later, heq, hbefore, hbehind⟩ := ih (n - (overhead + payload.length))
      rw [ofBytesAt_frame h, ofBytesAt_frame (first_take h hn)]
      refine ⟨later, congrArg ((offset, payload) :: ·) heq, ?_, fun r hr => ?_⟩
      · refine List.forall_mem_cons.mpr ⟨?_, fun r hr => ?_⟩
        · show offset + overhead + payload.length ≤ offset + n
          omega
        · have hle := hbefore r hr
          omega
      · have hlt := hbehind r hr
        omega
    · -- the frame is torn, and whatever follows it lies behind the cut
      obtain ⟨tail, htorn⟩ := first_take_torn h (Nat.not_le.mp hn)
      rw [ofBytesAt_frame h, ofBytesAt_stop htorn]
      refine ⟨_, rfl, by simp, List.forall_mem_cons.mpr ⟨?_, fun r hr => ?_⟩⟩
      · show offset + n < offset + overhead + payload.length
        omega
      · have hle := le_of_mem_records hr
        omega

/-- The records of a segment that was cut off are those whose frames end before the cut. -/
theorem ofBytes_take (bytes : Bytes) (n : Nat) :
    ∃ later, (ofBytes bytes).records = (ofBytes (bytes.take n)).records ++ later ∧
      (∀ r ∈ (ofBytes (bytes.take n)).records, r.1 + overhead + r.2.length ≤ n) ∧
      ∀ r ∈ later, n < r.1 + overhead + r.2.length := by
  have h := ofBytesAt_take 0 bytes n
  rwa [Nat.zero_add] at h

end Scan

end SegmentLog
