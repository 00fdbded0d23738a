import SegmentLog.Proofs.Store.Leading

/-!
# Positions ascend

A caller that is alone with a store appends one record after the other, and asks for other things in
between: segments are deleted, all of them even, the spare is made ready or thrown away, creations
and writes fail. The position of every record comes after those of all records before. What carries
this is not the order of the active segments, of which there may be none left, but that whatever can
still take in a record, now or later, lies beyond the last record: the next number, the spare, and
the end of every active segment that is not sealed.

* `Beyond.leads` — no request brings anything back to where a record was;
* `Sound.append_beyond` — a record comes after all before, and everything lies beyond it afterwards;
* `positions_ascend` — the positions of a whole run.
-/

namespace SegmentLog.Store

variable {s s' : Store} {b : Position}

/-- Whether all that can still take in a record lies beyond a position. -/
structure Beyond (s : Store) (b : Position) : Prop where
  next : b.segment < s.ids.next
  places : ∀ h ∈ s.active ++ s.spare.toList,
    (s.segment h).sealed = true ∨ b < (s.segment h).position

/-- No request brings anything back to where a record was. -/
theorem Beyond.leads (hb : s.Beyond b) (hs : s.Sound []) (h : s.Leads s') : s'.Beyond b := by
  refine ⟨UInt64.lt_of_lt_of_le hb.next h.ids, fun k hk => ?_⟩
  have hknown : k < s'.table.size := h.sound.known k (by rwa [List.append_nil])
  have hcase : k ∈ s.active ++ s.spare.toList ∨ s.table.size ≤ k := by
    have hfresh : k ∈ s.spare.toList ++ [] → k ∈ s.active ++ s.spare.toList := by
      rw [List.append_nil]
      exact List.mem_append_right _
    rcases List.mem_append.mp hk with hk | hk
    · rcases h.active k hk with hk | hk | hk
      · exact .inl (List.mem_append_left _ hk)
      · exact .inl (hfresh hk)
      · exact .inr hk
    · exact (h.fresh k (by rwa [List.append_nil])).imp_left hfresh
  rcases hcase with hold | hnew
  · have honward := h.old k (hs.known k (by rwa [List.append_nil]))
    refine (hb.places k hold).imp honward.sealed fun hlt => ?_
    rw [Position.lt_def, Segment.position] at hlt ⊢
    rw [honward.id]
    exact hlt.imp_right fun hlt => ⟨hlt.1, Nat.lt_of_lt_of_le hlt.2 honward.cursor⟩
  · exact .inr (.inl (UInt64.lt_of_lt_of_le hb.next (h.new k hnew hknown)))

/-- A range that is claimed begins where the last active segment ended, and everything lies beyond
its beginning after that. -/
theorem Sound.claim_beyond (hs : s.Sound []) (hb : s.Beyond b) {partitions : List Partition}
    {length : Nat} (hlength : 0 < length) {c : Claim}
    (h : s.claim partitions length = (.ok c, s')) (hids : s'.ids.next ≠ 0) :
    b < s'.positionOf c ∧ s'.Beyond (s'.positionOf c) := by
  obtain ⟨hleads, hgranted⟩ := hs.leads_claim h hids
  obtain ⟨s₁, hleads₁, ht, hunsealed, hoffset, rfl⟩ := hgranted c rfl
  have hs₁ := hleads₁.sound
  have htail := mem_of_tail? ht
  have hknown := hs₁.known_active htail
  have hself := segment_modify_self (s := s₁) (fun g => g.claimed partitions length) hknown
  have hposition : (s₁.modify c.handle fun g => g.claimed partitions length).positionOf c =
      (s₁.segment c.handle).position := by
    rw [positionOf, hself, hoffset]
    rfl
  rw [hposition]
  refine ⟨?_, hs₁.below _ hknown, fun k hk => ?_⟩
  · have hlast := (hb.leads hs hleads₁).places c.handle (List.mem_append_left _ htail)
    rw [hunsealed] at hlast
    exact hlast.resolve_left Bool.false_ne_true
  · have hk₁ : k < s₁.table.size := hs₁.known k (by rwa [List.append_nil])
    by_cases hne : k = c.handle
    · subst hne
      rw [hself]
      exact .inr (.inr ⟨rfl, Nat.lt_add_of_pos_right hlength⟩)
    · rw [segment_modify_ne _ hne]
      -- an active segment before the last one is sealed, and the spare has a higher number
      rcases Nat.lt_or_gt_of_ne hne with hlt | hgt
      · left
        rcases List.mem_append.mp hk with hk | hk
        · exact hs₁.sealed k hk c.handle htail hlt
        · have horder := (List.pairwise_append.mp hs₁.order).2.2 c.handle htail k hk
          exact absurd horder (Nat.lt_asymm hlt)
      · exact .inr (.inl (hs₁.ascending c.handle k hgt hk₁))

/-- The record of an append comes after all before, and everything lies beyond it afterwards. -/
theorem Sound.append_beyond (hs : s.Sound []) (hb : s.Beyond b) {m : Mutation} {p : Position}
    (h : s.append m = (.ok p, s')) (hids : s'.ids.next ≠ 0) : b < p ∧ s'.Beyond p := by
  obtain ⟨-, hgranted⟩ := hs.leads_append h hids
  obtain ⟨frame, c, s₁, hm, hc, hids₁, hleads, rfl⟩ := hgranted p rfl
  have hlength : 0 < frame.length := by
    obtain ⟨-, hpayload, -, rfl⟩ := Mutation.frame_eq_ok_iff.mp hm
    rw [Frame.length_ofPayload]
    omega
  have hs₁ := (hs.leads_claim hc hids₁).1.sound
  obtain ⟨hlt, hbeyond⟩ := hs.claim_beyond hb hlength hc hids₁
  have hknown := hs₁.known_active (mem_of_tail? (hs.housed.tail?_claim hc))
  have hsame : s'.positionOf c = s₁.positionOf c := by
    rw [positionOf, positionOf, (hleads.old c.handle hknown).id]
  rw [hsame]
  exact ⟨hlt, hbeyond.leads hs₁ hleads⟩

/-! ## Runs -/

/-- The position of the record that is appended when a request is served, if there is one. -/
def appended (s : Store) : Request → Option Position
  | .append m => (s.append m).1.toOption
  | _ => none

/-- The positions of the records that are appended while some requests are served one after the
other. -/
def positions (s : Store) : List Request → List Position
  | [] => []
  | request :: rest => (s.appended request).toList ++ (s.serve request).positions rest

theorem appended_eq_some {request : Request} {p : Position} (h : s.appended request = some p) :
    ∃ m, request = .append m ∧ s.append m = (.ok p, s.serve request) := by
  cases request with
  | append m =>
    refine ⟨m, rfl, ?_⟩
    cases ha : s.append m with
    | mk r s' =>
      rw [appended, ha] at h
      cases r with
      | error e => cases h
      | ok q =>
        cases h
        rw [serve, ha]
  | discard | stockSpare | sync | syncActive | keepIdsAbove | finish | wipe | attach => cases h

theorem Sound.positions_beyond (hs : s.Sound []) (hb : s.Beyond b) {requests : List Request}
    (hids : ∀ served, served <+: requests → (s.serveAll served).ids.next ≠ 0) :
    (s.positions requests).Pairwise (· < ·) ∧ ∀ p ∈ s.positions requests, b < p := by
  induction requests generalizing s b with
  | nil => exact ⟨.nil, fun p hp => (nomatch hp)⟩
  | cons request rest ih =>
    have hids₁ : (s.serve request).ids.next ≠ 0 := hids [request] ⟨rest, rfl⟩
    have hrest : ∀ served, served <+: rest → ((s.serve request).serveAll served).ids.next ≠ 0 :=
      fun served hserved => hids (request :: served) (List.cons_prefix_cons.mpr ⟨rfl, hserved⟩)
    have hserve := hs.leads_serve request hids₁
    rw [positions]
    cases happended : s.appended request with
    | none => exact ih hserve.sound (hb.leads hs hserve) hrest
    | some p =>
      obtain ⟨m, -, happend⟩ := appended_eq_some happended
      obtain ⟨hlt, hbeyond⟩ := hs.append_beyond hb happend hids₁
      obtain ⟨hpairwise, hafter⟩ := ih hserve.sound hbeyond hrest
      refine ⟨List.pairwise_cons.mpr ⟨hafter, hpairwise⟩, fun q hq => ?_⟩
      rcases List.mem_cons.mp hq with rfl | hq
      · exact hlt
      · exact Position.lt_trans hlt (hafter q hq)

/-- **Positions ascend.** Let any requests be served, one after the other, by a store that was just
opened, and let numbers not run out: the positions of the records that are appended ascend, and all
of them come after the start. -/
theorem positions_ascend {settings : Settings} {now : UInt64} {disk : Disk} {monitor : Monitor}
    (hopen : onDirectory settings now disk monitor = .ok s) (hdisk : disk.WellFormed)
    {requests : List Request}
    (hids : ∀ served, served <+: requests → (s.serveAll served).ids.next ≠ 0) :
    (s.positions requests).Pairwise (· < ·) ∧ ∀ p ∈ s.positions requests, Position.start < p := by
  have hs := sound_onDirectory hopen hdisk
  refine hs.positions_beyond ⟨hs.positive, fun h hh => ?_⟩ hids
  obtain ⟨found, rfl, -⟩ := onDirectory_cases hopen
  cases hh

/-- The first segment is given up when a write fails, and the spare takes its place; the next spare
cannot be created. A discard deletes the first two segments, and the third is thrown away. -/
theorem positions_ascend_interrupted :
    ∃ (s : Store) (requests : List Request),
      s = blank { directory := ⟨[Path.dot]⟩, segmentSize := 30 } 5
        { create := [none, none, some .device], write := [none, some (3, .device)] } ∧
      requests = [.append (.raw [⟨1⟩] [7, 8, 9]), .stockSpare, .append (.raw [⟨1⟩] [4, 5, 6]),
        .append (.raw [⟨1⟩] [4, 5, 6]), .append (.raw [⟨1⟩] [1, 2, 3]), .stockSpare,
        .append (.raw [⟨2⟩] [7, 8, 9]), .discard ⟨1⟩ ⟨6, 15⟩, .wipe, .keepIdsAbove 20,
        .append (.raw [⟨1⟩] [7, 8, 9]), .finish] ∧
      s.positions requests = [⟨5, 0⟩, ⟨6, 0⟩, ⟨6, 15⟩, ⟨8, 0⟩, ⟨21, 0⟩] ∧
      (s.positions requests).Pairwise (· < ·) ∧
      ∀ p ∈ s.positions requests, Position.start < p := by
  refine ⟨_, _, rfl, rfl, by decide +kernel, ?_⟩
  refine positions_ascend (onDirectory_blank rfl 5 _) (Disk.wellFormed_empty _)
    fun served hserved => ?_
  rw [List.prefix_iff_eq_take.mp hserved]
  have hlength := hserved.length_le
  generalize served.length = n at hlength ⊢
  decide +kernel +revert

end SegmentLog.Store
