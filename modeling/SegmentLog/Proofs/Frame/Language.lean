import Mathlib.Algebra.Ring.Nat
import Mathlib.Data.List.Forall2
import SegmentLog.Proofs.Frame.First

/-!
# The language of frames

Every byte string is the frames of some payloads, one behind the other, followed by bytes that
begin with no whole frame. There is only one way to cut it like that, and a scan finds it.

* `exists_spell` — every byte string can be cut into frames and a rest without one;
* `ofBytesAt_spell` — a scan goes through whole frames and on with what follows them;
* `ofBytes_spell` — what a scan finds in frames and a rest without one;
* `lengths_add_up` — the lengths of its records tell where a scan stops;
* `decodes_iff` — a scan is the only decoding of its bytes.
-/

namespace SegmentLog

namespace Frame

/-- Whether a payload has a frame: it is neither empty nor too long for its header. -/
def Framable (payload : Bytes) : Prop := 0 < payload.length ∧ payload.length ≤ maxSize

/-- The frames of some payloads, one behind the other. -/
def spell (payloads : List Bytes) : Bytes := (payloads.map ofPayload).flatten

/-- Some payloads with the offsets of their frames, the first of which begins at `offset`. -/
def layOut (offset : Nat) : List Bytes → List (Nat × Bytes)
  | [] => []
  | payload :: more => (offset, payload) :: layOut (offset + overhead + payload.length) more

theorem spell_nil : spell [] = [] := rfl

theorem spell_cons (payload : Bytes) (more : List Bytes) :
    spell (payload :: more) = ofPayload payload ++ spell more := rfl

theorem spell_append (xs ys : List Bytes) : spell (xs ++ ys) = spell xs ++ spell ys := by
  simp only [spell, List.map_append, List.flatten_append]

theorem spell_singleton (payload : Bytes) : spell [payload] = ofPayload payload := by
  rw [spell_cons, spell_nil, List.append_nil]

theorem length_spell_cons (payload : Bytes) (more : List Bytes) :
    (spell (payload :: more)).length = overhead + payload.length + (spell more).length := by
  rw [spell_cons, List.length_append, length_ofPayload]

/-- Frames are as long as their payloads and the headers in front of them. -/
theorem length_spell (payloads : List Bytes) :
    (spell payloads).length = (payloads.map (·.length)).sum + overhead * payloads.length := by
  induction payloads with
  | nil => rfl
  | cons x xs ih =>
    rw [length_spell_cons, ih, List.map_cons, List.sum_cons, List.length_cons, Nat.mul_succ]
    omega

theorem layOut_append (offset : Nat) (xs ys : List Bytes) :
    layOut offset (xs ++ ys) = layOut offset xs ++ layOut (offset + (spell xs).length) ys := by
  induction xs generalizing offset with
  | nil => rfl
  | cons x xs ih =>
    rw [List.cons_append, layOut, layOut, ih, length_spell_cons, List.cons_append]
    simp only [Nat.add_assoc]

/-- A record is laid out before the end of the frames. -/
theorem lt_of_mem_layOut {offset : Nat} {payloads : List Bytes} {r : Nat × Bytes}
    (h : r ∈ layOut offset payloads) : r.1 < offset + (spell payloads).length := by
  induction payloads generalizing offset with
  | nil => cases h
  | cons x xs ih =>
    rw [length_spell_cons, overhead]
    rcases List.mem_cons.mp h with rfl | h
    · show offset < _
      omega
    · have hlt := ih h
      rw [overhead] at hlt
      omega

theorem le_of_mem_layOut {offset : Nat} {payloads : List Bytes} {r : Nat × Bytes}
    (h : r ∈ layOut offset payloads) : offset ≤ r.1 := by
  induction payloads generalizing offset with
  | nil => cases h
  | cons x xs ih =>
    rcases List.mem_cons.mp h with rfl | h
    · exact Nat.le_refl _
    · have hle := ih h
      omega

/-- Records are laid out in ascending order. -/
theorem ascending_layOut (offset : Nat) (payloads : List Bytes) :
    (layOut offset payloads).Pairwise fun r r' => r.1 < r'.1 := by
  induction payloads generalizing offset with
  | nil => exact .nil
  | cons x xs ih =>
    refine List.pairwise_cons.mpr ⟨fun r hr => ?_, ih _⟩
    have hle := le_of_mem_layOut hr
    rw [overhead] at hle
    show offset < r.1
    omega

theorem map_snd_layOut (offset : Nat) (payloads : List Bytes) :
    (layOut offset payloads).map (·.2) = payloads := by
  induction payloads generalizing offset with
  | nil => rfl
  | cons x xs ih => rw [layOut, List.map_cons, ih]

theorem length_layOut (offset : Nat) (payloads : List Bytes) :
    (layOut offset payloads).length = payloads.length := by
  rw [← List.length_map (f := (·.2)), map_snd_layOut]

/-- Payloads are encoded exactly if each of them has a frame, and that is what they become. -/
theorem forall₂_encode_iff {payloads frames : List Bytes} :
    List.Forall₂ (fun x f => encode x maxSize = .ok f) payloads frames ↔
      (∀ x ∈ payloads, Framable x) ∧ frames = payloads.map ofPayload := by
  constructor
  · intro h
    induction h with
    | nil => exact ⟨by simp, rfl⟩
    | cons he _ ih =>
      obtain ⟨hpos, hle, rfl⟩ := encode_eq_ok_iff.mp he
      obtain ⟨hall, rfl⟩ := ih
      exact ⟨List.forall_mem_cons.mpr ⟨⟨hpos, hle⟩, hall⟩, rfl⟩
  · rintro ⟨hall, rfl⟩
    induction payloads with
    | nil => exact .nil
    | cons x xs ih =>
      obtain ⟨⟨hpos, hle⟩, hall⟩ := List.forall_mem_cons.mp hall
      exact .cons (encode_eq_ok_iff.mpr ⟨hpos, hle, rfl⟩) (ih hall)

/-- Every byte string is the frames of some payloads, followed by bytes that some reason to stop
describes. -/
theorem exists_spell (bytes : Bytes) :
    ∃ payloads rest tail, (∀ x ∈ payloads, Framable x) ∧ bytes = spell payloads ++ rest ∧
      Tail.Describes tail rest := by
  induction hn : bytes.length using Nat.strongRecOn generalizing bytes with
  | ind n ih =>
    cases hf : first bytes with
    | stop tail => exact ⟨[], bytes, tail, by simp, rfl, first_eq_stop_iff.mp hf⟩
    | frame payload rest =>
      obtain ⟨hpos, hle, hb⟩ := eq_of_first_eq_frame hf
      have hlen : rest.length < n := by
        rw [← hn, hb, List.length_append, length_ofPayload]
        omega
      obtain ⟨payloads, rest', tail, hall, hr, ht⟩ := ih _ hlen rest rfl
      refine ⟨payload :: payloads, rest', tail, ?_, ?_, ht⟩
      · exact List.forall_mem_cons.mpr ⟨⟨hpos, hle⟩, hall⟩
      · rw [hb, hr, spell_cons, List.append_assoc]

/-- What a write that broke off has left of a frame begins with no whole frame. -/
theorem exists_describes_of_torn {payload torn : Bytes} (h : Framable payload)
    (hfront : torn <+: ofPayload payload) (hshort : torn.length < (ofPayload payload).length) :
    ∃ tail, Tail.Describes tail torn := by
  cases hf : first torn with
  | stop tail => exact ⟨tail, first_eq_stop_iff.mp hf⟩
  | frame payload' rest =>
    obtain ⟨hpos, hle, rfl⟩ := eq_of_first_eq_frame hf
    obtain ⟨more, hmore⟩ := hfront
    -- a whole frame at the front of a frame is the frame itself
    have hwhole := first_ofPayload [] h.1 h.2
    rw [List.append_nil, ← hmore, List.append_assoc, first_ofPayload _ hpos hle,
      First.frame.injEq] at hwhole
    rw [hwhole.1, List.length_append] at hshort
    omega

end Frame

namespace Scan

open SegmentLog.Frame

/-- A scan goes through whole frames and on with what follows them. -/
theorem ofBytesAt_spell {payloads : List Bytes} (h : ∀ x ∈ payloads, Framable x) (offset : Nat)
    (rest : Bytes) :
    ofBytesAt offset (spell payloads ++ rest) =
      { ofBytesAt (offset + (spell payloads).length) rest with
        records := layOut offset payloads ++
          (ofBytesAt (offset + (spell payloads).length) rest).records } := by
  induction payloads generalizing offset with
  | nil => rfl
  | cons x xs ih =>
    obtain ⟨hpos, hle⟩ := h x (List.mem_cons_self ..)
    have hfirst := first_ofPayload (spell xs ++ rest) hpos hle
    rw [spell_cons, List.append_assoc, ofBytesAt_frame hfirst,
      ih (fun y hy => h y (List.mem_cons_of_mem _ hy)), List.length_append, length_ofPayload]
    simp only [layOut, List.cons_append, Nat.add_assoc]

/-- What a scan finds in the frames of some payloads that are followed by no whole frame. -/
theorem ofBytes_spell {payloads : List Bytes} (h : ∀ x ∈ payloads, Framable x) {rest : Bytes}
    {tail : Tail} (ht : tail.Describes rest) :
    ofBytes (spell payloads ++ rest) = ⟨layOut 0 payloads, tail, (spell payloads).length⟩ := by
  rw [ofBytes, ofBytesAt_spell h, ofBytesAt_stop (first_eq_stop_iff.mpr ht)]
  simp only [List.append_nil, Nat.zero_add]

/-- What a scan finds in frames that nothing follows. -/
theorem ofBytes_spell_clean {payloads : List Bytes} (h : ∀ x ∈ payloads, Framable x) :
    ofBytes (spell payloads) = ⟨layOut 0 payloads, .clean, (spell payloads).length⟩ := by
  have hclean : Tail.Describes .clean [] := rfl
  have hscan := ofBytes_spell h hclean
  rwa [List.append_nil] at hscan

/-- A torn frame behind whole ones adds no record. -/
theorem records_spell_torn {payloads : List Bytes} (h : ∀ x ∈ payloads, Framable x)
    {payload torn : Bytes} (hpayload : Framable payload) (hfront : torn <+: ofPayload payload)
    (hshort : torn.length < (ofPayload payload).length) :
    (ofBytes (spell payloads ++ torn)).records = (ofBytes (spell payloads)).records := by
  obtain ⟨tail, htail⟩ := exists_describes_of_torn hpayload hfront hshort
  rw [ofBytes_spell h htail, ofBytes_spell_clean h]

/-- A scan finds records in ascending order. -/
theorem ascending_records (bytes : Bytes) :
    (ofBytes bytes).records.Pairwise fun r r' => r.1 < r'.1 := by
  obtain ⟨payloads, rest, tail, hall, rfl, ht⟩ := exists_spell bytes
  rw [ofBytes_spell hall ht]
  exact ascending_layOut 0 payloads

/-- A scan stops behind the payloads of its records and the headers in front of them. -/
theorem lengths_add_up (bytes : Bytes) :
    ((ofBytes bytes).records.map (·.2.length)).sum + overhead * (ofBytes bytes).records.length =
      (ofBytes bytes).stop := by
  obtain ⟨payloads, rest, tail, hall, rfl, ht⟩ := exists_spell bytes
  have hlengths : (layOut 0 payloads).map (·.2.length) = payloads.map (·.length) := by
    rw [← congrArg (List.map List.length) (map_snd_layOut 0 payloads), List.map_map]
    rfl
  rw [ofBytes_spell hall ht]
  dsimp only
  rw [hlengths, length_layOut, length_spell]

/-! ## Decodings -/

/-- Whether a scan is a decoding of some bytes: its records lie there as frames, one behind the
other from the front on; what follows them begins with no whole frame; and the reason to stop is
the one that describes what follows. -/
structure Decodes (s : Scan) (bytes : Bytes) : Prop where
  framable : ∀ r ∈ s.records, 0 < r.2.length ∧ r.2.length < 2 ^ 31
  front : ∀ r, s.records[0]? = some r → r.1 = 0
  next : ∀ i r q, s.records[i]? = some r → s.records[i + 1]? = some q → q.1 = r.1 + 12 + r.2.length
  stop_le : s.stop ≤ bytes.length
  frames : ∃ frames, List.Forall₂ (fun x f => encode x maxSize = .ok f)
    (s.records.map (·.2)) frames ∧ frames.flatten = bytes.take s.stop
  complete : ¬ Begins (bytes.drop s.stop)
  tail_iff : ∀ tail, s.tail = tail ↔ tail.Describes (bytes.drop s.stop)

theorem framable_iff {payload : Bytes} :
    Framable payload ↔ 0 < payload.length ∧ payload.length < 2 ^ 31 := by
  rw [Framable, maxSize]
  omega

/-- Records that lie one behind the other are laid out as their payloads are. -/
theorem eq_layOut {records : List (Nat × Bytes)} {offset : Nat}
    (front : ∀ r, records[0]? = some r → r.1 = offset)
    (next : ∀ i r q, records[i]? = some r → records[i + 1]? = some q →
      q.1 = r.1 + 12 + r.2.length) :
    records = layOut offset (records.map (·.2)) := by
  induction records generalizing offset with
  | nil => rfl
  | cons r rs ih =>
    have hr : r.1 = offset := front r rfl
    rw [List.map_cons, layOut, ← ih, ← hr]
    · intro q hq
      rw [next 0 r q rfl (by rw [List.getElem?_cons_succ, hq]), hr]
      rfl
    · intro i p q hp hq
      exact next (i + 1) p q (by rw [List.getElem?_cons_succ, hp])
        (by rw [List.getElem?_cons_succ, hq])

theorem next_layOut {offset : Nat} {payloads : List Bytes} {i : Nat} {r q : Nat × Bytes}
    (hr : (layOut offset payloads)[i]? = some r)
    (hq : (layOut offset payloads)[i + 1]? = some q) : q.1 = r.1 + 12 + r.2.length := by
  induction payloads generalizing offset i with
  | nil => cases hr
  | cons x xs ih =>
    cases i with
    | zero =>
      cases xs with
      | nil => cases hq
      | cons y ys =>
        cases hr
        cases hq
        rfl
    | succ i =>
      rw [layOut, List.getElem?_cons_succ] at hr hq
      exact ih hr hq

/-- A scan is a decoding of its bytes. -/
theorem decodes_ofBytes (bytes : Bytes) : (ofBytes bytes).Decodes bytes := by
  obtain ⟨payloads, rest, tail, hall, rfl, ht⟩ := exists_spell bytes
  have hmem : ∀ r ∈ layOut 0 payloads, Framable r.2 := by
    intro r hr
    apply hall
    rw [← map_snd_layOut 0 payloads]
    exact List.mem_map_of_mem hr
  have hdrop : (spell payloads ++ rest).drop (spell payloads).length = rest := List.drop_left' rfl
  have htake : (spell payloads ++ rest).take (spell payloads).length = spell payloads :=
    List.take_left' rfl
  rw [ofBytes_spell hall ht]
  constructor
  · exact fun r hr => framable_iff.mp (hmem r hr)
  · intro r hr
    cases payloads with
    | nil => cases hr
    | cons x xs => cases hr; rfl
  · exact fun i r q hr hq => next_layOut hr hq
  · rw [List.length_append]
    exact Nat.le_add_right _ _
  · refine ⟨payloads.map ofPayload, ?_, htake.symm⟩
    rw [map_snd_layOut]
    exact forall₂_encode_iff.mpr ⟨hall, rfl⟩
  · rw [hdrop, begins_iff]
    rintro ⟨payload, more, hf⟩
    rw [first_eq_stop_iff.mpr ht] at hf
    cases hf
  · intro t
    rw [hdrop]
    constructor
    · rintro rfl
      exact ht
    · intro h
      have he := (first_eq_stop_iff.mpr ht).symm.trans (first_eq_stop_iff.mpr h)
      cases he
      rfl

/-- A scan is the only decoding of its bytes. -/
theorem decodes_iff {s : Scan} {bytes : Bytes} : s.Decodes bytes ↔ s = ofBytes bytes := by
  constructor
  · intro h
    obtain ⟨frames, henc, hflat⟩ := h.frames
    obtain ⟨hall, rfl⟩ := forall₂_encode_iff.mp henc
    have hspell : spell (s.records.map (·.2)) = bytes.take s.stop := hflat
    have hbytes : bytes = spell (s.records.map (·.2)) ++ bytes.drop s.stop := by
      rw [hspell, List.take_append_drop]
    have hstop : (spell (s.records.map (·.2))).length = s.stop := by
      rw [hspell, List.length_take, Nat.min_eq_left h.stop_le]
    rw [hbytes, ofBytes_spell hall ((h.tail_iff s.tail).mp rfl), hstop,
      ← eq_layOut h.front h.next]
  · rintro rfl
    exact decodes_ofBytes bytes

end Scan

end SegmentLog
