import SegmentLog.Proofs.Concurrent.Layout
import SegmentLog.Proofs.Replay.Accepting

/-!
# What is acknowledged is replayed, up to the first gap

Where every append is synced, an append returns its position only after no earlier claim in its
segment is pending any more. But a claim is over as well when its write failed, and then its range
is a gap: it is full of zeros, which a replay takes for the end of the segment. So it is not the
wait alone that decides whether an acknowledged record can be replayed.

* `Appending.advance_stage` — what the steps of a synced append are;
* `Laid.mem_records_iff` — which records a replay finds in a segment;
* `World.Acknowledging.step`, `World.Acknowledging.run` — what holds whenever appends are synced;
* `World.acknowledged_replayed_iff` — an acknowledged record is replayed exactly if no earlier
  write in its segment has failed.
-/

namespace SegmentLog

/-! ## Synced appends -/

/-- Whether an append that is synced has seen that no earlier claim is pending. -/
def Stage.hasWaited : Stage → Bool
  | .syncing => true
  | .givingUp written _ => written
  | .returned written _ => written
  | _ => false

/-- Where an append that is synced goes on after its write. -/
def Stage.ofWrite : Except DiskError Unit → Stage
  | .ok () => .waiting
  | .error cause => .givingUp false cause

/-- A frame is written once its claim is over, unless the write has failed. -/
theorem Stage.isWritten_iff (g : Stage) :
    g.isWritten = true ↔ g.isWriting = false ∧ g.hasFailed = false := by
  cases g <;> simp [isWritten, isWriting, hasFailed]

/-- Where every append is synced, an append writes its frame first, and then goes on without
writing: it waits before it does anything else, and returns its own position. -/
theorem Appending.advance_stage {a a' : Appending} {s s' : Store}
    (h : a.advance s = some (a', s')) (hsync : s.settings.sync = .eachAppend) :
    (a.stage = .writing ∧ ∃ r, s.write a.claim a.frame = (r, s') ∧ a'.stage = .ofWrite r) ∨
      (s.Evolves s' ∧ a.stage.isWriting = false ∧ a'.stage.isWriting = false ∧
        a'.stage.isWritten = a.stage.isWritten ∧
        (a'.stage.hasWaited = true → a.stage.hasWaited = true ∨ s.awaits a.claim = false) ∧
        ∀ written p, a'.stage = .returned written (.ok p) →
          written = true ∧ p = s'.positionOf a.claim) := by
  rcases Appending.advance_cases h with ⟨hstage, r, hr, rfl⟩ |
    ⟨hevolves, -, -, -, hwriting, hwriting', hwritten, hposition⟩
  · refine .inl ⟨hstage, r, hr, ?_⟩
    cases r with
    | ok => exact if_pos (Store.settings_write hr ▸ hsync)
    | error cause => rfl
  refine .inr ⟨hevolves, hwriting, hwriting', hwritten, ?_⟩
  obtain ⟨m, frame, c, stage⟩ := a
  cases stage with
  | writing => cases hwriting
  | waiting =>
    simp only [advance] at h
    split at h
    · cases h
    · rename_i hfree
      cases h
      exact ⟨fun _ => .inr (Bool.not_eq_true _ ▸ hfree), fun _ _ hc => by cases hc⟩
  | syncing =>
    refine ⟨fun _ => .inl rfl, fun written p hc => ⟨?_, hposition written p hc⟩⟩
    cases hr : s.syncSegment c.handle true with
    | mk r t =>
      cases r <;> simp only [advance, hr] at h <;> cases h <;> cases hc
      rfl
  | givingUp written cause =>
    cases h
    exact ⟨.inl, fun _ _ hc => by cases hc⟩
  | returned written result => cases h

/-! ## Appends that waited -/

/-- Whether of some appends in one segment none is past its wait while an earlier one is still to
be written. -/
def Waited (as : List Appending) : Prop :=
  as.Pairwise fun b a => a.stage.hasWaited = true → b.stage.isWriting = false

variable {g : Segment} {content : Bytes} {as xs ys : List Appending} {a a' : Appending}

theorem Waited.claim (h : Waited as) (ha : a.stage.hasWaited = false) {new : List Appending}
    (hnew : new.Sublist [a]) : Waited (as ++ new) := by
  refine List.pairwise_append.mpr ⟨h, (List.pairwise_singleton _ a).sublist hnew, ?_⟩
  intro b _ c hc hwaited
  rw [List.mem_singleton.mp (hnew.subset hc), ha] at hwaited
  cases hwaited

/-- An append that goes on past its wait has seen that nothing before it is to be written, and one
that is written hinders nobody. -/
theorem Waited.swap (h : Waited (xs ++ a :: ys)) (hwriting : a'.stage.isWriting = false)
    (hwaited : a'.stage.hasWaited = true → ∀ b ∈ xs, b.stage.isWriting = false) :
    Waited (xs ++ a' :: ys) := by
  obtain ⟨hxs, hays, hbefore⟩ := List.pairwise_append.mp h
  obtain ⟨-, hys⟩ := List.pairwise_cons.mp hays
  refine List.pairwise_append.mpr ⟨hxs, List.pairwise_cons.mpr ⟨fun _ _ _ => hwriting, hys⟩, ?_⟩
  intro b hb c hc hc'
  rcases List.mem_cons.mp hc with rfl | hc
  · exact hwaited hc' b hb
  · exact hbefore b hb c (List.mem_cons_of_mem _ hc) hc'

theorem Waited.before (h : Waited (xs ++ a :: ys)) (ha : a.stage.hasWaited = true) :
    ∀ b ∈ xs, b.stage.isWriting = false :=
  fun b hb => (List.pairwise_append.mp h).2.2 b hb a List.mem_cons_self ha

/-- An append that nothing before it hinders finds no claim before it that is to be written. -/
theorem Laid.written_of_not_awaits (h : Laid g content (xs ++ a :: ys))
    (hfree : g.awaitsBefore a.claim.offset = false) : ∀ b ∈ xs, b.stage.isWriting = false := by
  intro b hb
  by_contra hwriting
  have hpending : b.claim.offset ∈ g.pending :=
    (h.pending _).mpr ⟨b, List.mem_append_left _ hb, Bool.not_eq_false _ ▸ hwriting, rfl⟩
  have hlt := h.tiled.lt_of_before (fun b hb => h.length_pos hb) hb
  rw [Segment.awaitsBefore, List.any_eq_false] at hfree
  exact hfree _ hpending (decide_eq_true hlt)

/-! ## What is found in a segment -/

theorem image_written (hframed : ∀ a ∈ as, a.frame = Frame.ofPayload a.mutation.payload)
    (hwritten : ∀ a ∈ as, a.stage.isWritten = true) :
    image as = Frame.spell (as.map (·.mutation.payload)) := by
  induction as with
  | nil => rfl
  | cons a as ih =>
    obtain ⟨ha, has⟩ := List.forall_mem_cons.mp hframed
    obtain ⟨hwa, hwas⟩ := List.forall_mem_cons.mp hwritten
    rw [image_cons, ih has hwas, Appending.image, if_pos hwa, ha, List.map_cons, Frame.spell_cons]

/-- A file that is long enough begins with what was put into the first ranges. -/
theorem Laid.image_prefix (h : Laid g content (xs ++ ys))
    (hlong : (image xs).length ≤ content.length) : image xs <+: content := by
  obtain ⟨n, hn⟩ := h.image_eq
  have htake := congrArg (List.take (image xs).length) hn
  rw [image_append, List.take_left' rfl, List.take_append_of_le_length hlong] at htake
  rw [htake]
  exact List.take_prefix _ _

theorem Laid.framable (h : Laid g content as) :
    ∀ x ∈ as.map (·.mutation.payload), Frame.Framable x := by
  intro x hx
  obtain ⟨a, ha, rfl⟩ := List.mem_map.mp hx
  exact (h.framed a ha).1

theorem Laid.frame_eq (h : Laid g content as) (hxs : ∀ a ∈ xs, a ∈ as) :
    ∀ a ∈ xs, a.frame = Frame.ofPayload a.mutation.payload := fun a ha => (h.framed a (hxs a ha)).2

/-- Behind frames that were all written, a written frame is found. -/
theorem Laid.mem_records (h : Laid g content (xs ++ a :: ys)) (ha : a.stage.isWritten = true)
    (hwritten : ∀ b ∈ xs, b.stage.isWritten = true) :
    (a.claim.offset, a.mutation.payload) ∈ (Scan.ofBytes content).records := by
  have hreach := h.reach a (List.mem_append_right _ List.mem_cons_self) ha
  have hoffset := h.tiled.offset_eq
  rw [List.append_cons] at h
  have hall : ∀ b ∈ xs ++ [a], b.stage.isWritten = true :=
    List.forall_mem_append.mpr ⟨hwritten, List.forall_mem_singleton.mpr ha⟩
  have himage := image_written (h.frame_eq fun b hb => List.mem_append_left _ hb) hall
  have hbefore : image xs = _ := image_written (h.frame_eq fun b hb => by simp [hb]) hwritten
  obtain ⟨rest, hrest⟩ := h.image_prefix (by
    rw [image_append, image_cons, List.length_append, List.length_append, a.length_image, ← hoffset]
    exact hreach)
  have hframable : ∀ x ∈ (xs ++ [a]).map (·.mutation.payload), Frame.Framable x :=
    fun x hx => h.framable x (by rw [List.map_append]; exact List.mem_append_left _ hx)
  rw [← hrest, himage, Scan.ofBytes, Scan.ofBytesAt_spell hframable, List.map_append,
    Frame.layOut_append, hoffset, hbefore, Nat.zero_add, Nat.zero_add]
  exact List.mem_append_left _ (List.mem_append_right _ List.mem_cons_self)

/-- A gap ends what is found. -/
theorem Laid.records_of_gap {us vs : List Appending} {b : Appending}
    (h : Laid g content (us ++ b :: vs)) (hus : ∀ u ∈ us, u.stage.isWritten = true)
    (hb : b.stage.isWritten = false) (hlong : b.claim.offset + b.frame.length ≤ content.length) :
    (Scan.ofBytes content).records = Frame.layOut 0 (us.map (·.mutation.payload)) := by
  have hoffset := h.tiled.offset_eq
  have hbefore : image us = _ := image_written (h.frame_eq fun u hu => by simp [hu]) hus
  have hlen : 12 ≤ b.frame.length := by
    rw [(h.framed b (by simp)).2, Frame.length_ofPayload, Frame.overhead]
    omega
  have hgap : b.image = List.replicate b.frame.length 0 := by rw [Appending.image, hb]; rfl
  rw [List.append_cons] at h
  obtain ⟨rest, hrest⟩ := h.image_prefix (by
    rw [image_append, image_cons, List.length_append, List.length_append, b.length_image, ← hoffset]
    exact hlong)
  have hframable : ∀ x ∈ us.map (·.mutation.payload), Frame.Framable x :=
    fun x hx => h.framable x (by simp only [List.map_append]; simp [hx])
  have hmark : Tail.Describes .endMarker (List.replicate b.frame.length 0 ++ rest) := by
    refine ⟨by rw [List.length_append, List.length_replicate]; omega, ?_⟩
    rw [List.take_append_of_le_length (by rw [List.length_replicate]; omega), List.take_replicate,
      Nat.min_eq_left (by omega)]
    rfl
  rw [← hrest, image_append, image_cons, hbefore, hgap, show image [] = [] from rfl,
    List.append_nil, List.append_assoc, Scan.ofBytes_spell hframable hmark]

/-- Which records a replay finds: a frame that was written is found exactly if every frame before
it in its segment was written as well. -/
theorem Laid.mem_records_iff (h : Laid g content (xs ++ a :: ys)) (ha : a.stage.isWritten = true) :
    (a.claim.offset, a.mutation.payload) ∈ (Scan.ofBytes content).records ↔
      ∀ b ∈ xs, b.stage.isWritten = true := by
  refine ⟨fun hmem => ?_, h.mem_records ha⟩
  by_contra hgap
  -- the first gap lies before the frame, and nothing behind it is found
  obtain ⟨b, hfind⟩ : ∃ b, xs.find? (fun b => !b.stage.isWritten) = some b := by
    rw [← Option.isSome_iff_exists, List.find?_isSome]
    simpa using hgap
  obtain ⟨hb, us, vs, rfl, hus⟩ := List.find?_eq_some_iff_append.mp hfind
  have hunwritten : b.stage.isWritten = false := Bool.not_eq_true' _ ▸ hb
  have hwritten : ∀ u ∈ us, u.stage.isWritten = true := fun u hu => by simpa using hus u hu
  have hreach := h.reach a (List.mem_append_right _ List.mem_cons_self) ha
  obtain ⟨middle, hbefore, haoffset, -⟩ := tiled_append.mp h.tiled
  have hbound := (hbefore.mem_bounds (a := b) (by simp)).2
  rw [List.append_assoc, List.cons_append] at h
  rw [h.records_of_gap hwritten hunwritten (by omega)] at hmem
  have hlt := Frame.lt_of_mem_layOut hmem
  have himage : image us = _ := image_written (h.frame_eq fun u hu => by simp [hu]) hwritten
  have hoffset := h.tiled.offset_eq
  rw [himage] at hoffset
  simp only [Nat.zero_add] at hlt
  omega

/-! ## Replays of a segment -/

/-- What a replay of the file of a segment applies. -/
def Store.replayed (s : Store) (h : Handle) : List (Position × Bytes) :=
  (({} : Replay).file (Target.total fun p payload (l : List (Position × Bytes)) =>
    l ++ [(p, payload)]) s.disk (s.segment h).name (s.segment h).path { state := [] }).2.state

theorem Target.feed_collecting (records l : List (Position × Bytes)) :
    (Target.total fun p payload (l : List (Position × Bytes)) => l ++ [(p, payload)]).feed
      records l = l ++ records := by
  induction records generalizing l with
  | nil => exact (List.append_nil l).symm
  | cons r rest ih => exact (ih _).trans (List.append_assoc l [r] rest)

theorem Store.Housed.replayed_eq {s : Store} {loose : List Handle} (hs : s.Housed loose)
    {h : Handle} (hh : h ∈ s.active) :
    s.replayed h = positioned (s.segment h).id
      (Scan.ofBytes (s.disk.content (s.segment h).file)).records := by
  rw [Store.replayed, Replay.file_accepting rfl (Target.accepting_total _) (hs.contents hh)]
  exact Target.feed_collecting _ []

/-! ## The world -/

theorem Store.positionOf_modify {s : Store} {c : Claim} (hc : c.handle < s.table.size) {k : Handle}
    {f : Segment → Segment} (hf : ∀ g, (f g).name = g.name) :
    (s.modify k f).positionOf c = s.positionOf c := by
  rw [positionOf, positionOf]
  by_cases hk : c.handle = k
  · subst hk
    rw [segment_modify_self f hc, Segment.id, hf, Segment.id]
  · rw [segment_modify_ne f hk]

theorem Store.Evolves.positionOf {s s' : Store} (h : s.Evolves s') {c : Claim}
    (hc : c.handle < s.table.size) : s'.positionOf c = s.positionOf c := by
  rw [Store.positionOf, Store.positionOf, (h.old _ hc).id]

namespace World

/-- Whether in a world in which every append is synced and a write that fails leaves nothing
behind, every append has kept to its range, and none is past its wait too early. -/
structure Acknowledging (w : World) : Prop where
  inOrder : w.InOrder
  laidOut : w.store.LaidOut w.appends
  waited : ∀ k, Waited (claimedIn w.appends k)
  position : ∀ a ∈ w.appends, ∀ written p, a.stage = .returned written (.ok p) →
    written = true ∧ p = w.store.positionOf a.claim
  eachAppend : w.store.settings.sync = .eachAppend
  framable : w.store.maxPayload ≤ Frame.maxSize
  nothingTorn : ∀ f ∈ w.store.disk.faults.write, ∀ count e, f = some (count, e) → count = 0

variable {w w' : World}

theorem Acknowledging.known (hw : w.Acknowledging) {a : Appending} (ha : a ∈ w.appends) :
    a.claim.handle < w.store.table.size := (hw.inOrder.appends a ha).known

/-- A step in which nothing is claimed or written. -/
theorem Acknowledging.evolves (hw : w.Acknowledging) (hw' : w'.InOrder)
    (happends : w'.appends = w.appends) (he : w.store.Evolves w'.store) : w'.Acknowledging where
  inOrder := hw'
  laidOut := by
    rw [happends]
    exact hw.laidOut.evolves hw.inOrder.store.filed he fun a ha => hw.known ha
  waited := by rw [happends]; exact hw.waited
  position a ha written p hp := by
    rw [happends] at ha
    rw [he.positionOf (hw.known ha)]
    exact hw.position a ha written p hp
  eachAppend := by rw [he.settings]; exact hw.eachAppend
  framable := by rw [Store.maxPayload, he.settings]; exact hw.framable
  nothingTorn f hf := hw.nothingTorn f (he.faults.write f hf)

/-- A step in which marks are forgotten. -/
theorem Acknowledging.noteFlush (hw : w.Acknowledging) (hw' : w'.InOrder)
    (happends : w'.appends = w.appends) {k : Handle} {p : Partition} {upTo : Position}
    (hs : w'.store = w.store.noteFlush k p upTo) : w'.Acknowledging where
  inOrder := hw'
  laidOut := by
    rw [happends, hs]
    exact hw.laidOut.noteFlush k p upTo
  waited := by rw [happends]; exact hw.waited
  position a ha written q hq := by
    rw [happends] at ha
    rw [hs, Store.noteFlush, Store.positionOf_modify (hw.known ha) fun g => g.name_noteFlush p upTo]
    exact hw.position a ha written q hq
  eachAppend := by rw [hs]; exact hw.eachAppend
  framable := by rw [hs]; exact hw.framable
  nothingTorn := by rw [hs]; exact hw.nothingTorn

/-- A claim that is granted. -/
theorem Acknowledging.claim (hw : w.Acknowledging) (hw' : w'.InOrder)
    (hids : w'.store.ids.next ≠ 0) {m : Mutation} {frame : Bytes} {c : Claim}
    (hm : m.frame w.store.maxPayload = .ok frame)
    (hc : w.store.claim m.partitions frame.length = (.ok c, w'.store))
    (happends : w'.appends = w.appends ++ [{ mutation := m, frame, claim := c }]) :
    w'.Acknowledging := by
  obtain ⟨-, hpos, hle, hframe⟩ := Mutation.frame_eq_ok_iff.mp hm
  have hlaid := hw.laidOut.claim hw.inOrder.store.housed hc (fun a ha => hw.known ha)
    ⟨⟨hpos, Nat.le_trans hle hw.framable⟩, hframe⟩
  obtain ⟨-, -, ⟨_, hr, -⟩ | ⟨s₁, _, hr, -, hevolves, -, -, -, -, hs⟩⟩ :=
    hw.inOrder.store.claim hc hids
  · cases hr
  · cases hr
    refine ⟨hw', by rw [happends]; exact hlaid, fun k => ?_, fun a ha written p hp => ?_, ?_, ?_,
      ?_⟩
    · rw [happends, claimedIn_append]
      exact (hw.waited k).claim (a := { mutation := m, frame, claim := c }) rfl List.filter_sublist
    · rw [happends] at ha
      rcases List.mem_append.mp ha with ha | ha
      · have hposition := Store.positionOf_modify
          (f := fun g => g.claimed m.partitions frame.length) (k := c.handle)
          (Nat.lt_of_lt_of_le (hw.known ha) hevolves.size) fun _ => rfl
        rw [hs, hposition, hevolves.positionOf (hw.known ha)]
        exact hw.position a ha written p hp
      · rw [List.mem_singleton.mp ha] at hp
        cases hp
    · rw [hs]
      show s₁.settings.sync = .eachAppend
      rw [hevolves.settings]
      exact hw.eachAppend
    · rw [hs]
      show s₁.settings.maxPayload ≤ Frame.maxSize
      rw [hevolves.settings]
      exact hw.framable
    · rw [hs]
      exact fun f hf => hw.nothingTorn f (hevolves.faults.write f hf)

theorem waited_set {i : Nat} {a a' : Appending} (hw : ∀ k, Waited (claimedIn w.appends k))
    (ha : w.appends[i]? = some a) (hb : a.Became a') (hwriting : a'.stage.isWriting = false)
    (hwaited : a'.stage.hasWaited = true → ∀ xs ys,
      claimedIn w.appends a.claim.handle = xs ++ a :: ys → ∀ b ∈ xs, b.stage.isWriting = false) :
    ∀ k, Waited (claimedIn (w.appends.set i a') k) := by
  obtain ⟨⟨xs, ys, hold, hnew⟩, hothers⟩ := claimedIn_set ha hb
  intro k
  have hk := hw k
  by_cases hka : k = a.claim.handle
  · subst hka
    rw [hold] at hk
    rw [hnew]
    exact hk.swap hwriting fun h => hwaited h xs ys hold
  · rw [hothers k hka]
    exact hk

/-- A step of an append in which its frame is written, or is not. -/
theorem Acknowledging.write (hw : w.Acknowledging) (hw' : w'.InOrder) {i : Nat}
    {a a' : Appending} (ha : w.appends[i]? = some a) (hb : a.Became a')
    (hstage : a.stage = .writing) {r : Except DiskError Unit}
    (hr : w.store.write a.claim a.frame = (r, w'.store))
    (hstage' : a'.stage = .ofWrite r)
    (happends : w'.appends = w.appends.set i a') : w'.Acknowledging := by
  have hknown := hw.known (List.mem_of_getElem? ha)
  have hwriting : a'.stage.isWriting = false := by rw [hstage']; cases r <;> rfl
  have hwaited : a'.stage.hasWaited = false := by rw [hstage']; cases r <;> rfl
  have hlaid := hw.laidOut.write hw.inOrder.store.filed ha hknown hr hw.nothingTorn hb hwriting
    (by rw [hstage']; cases r <;> rfl) (by rw [hstage]; rfl)
  obtain ⟨u, d, hs, hd⟩ := Store.write_cases hr hknown
  obtain ⟨plan, hplan, hsub⟩ := (Disk.writeAt_cases hd (hw.inOrder.store.files _ hknown)).1.faults
  have hposition : ∀ c : Claim, c.handle < w.store.table.size →
      w'.store.positionOf c = w.store.positionOf c := by
    intro c hc
    rw [hs]
    exact Store.positionOf_modify hc
      (f := fun g => { g.release a.claim.offset with unsynced := u }) fun _ => rfl
  refine ⟨hw', by rw [happends]; exact hlaid, ?_, ?_, ?_, ?_, ?_⟩
  · rw [happends]
    refine waited_set hw.waited ha hb hwriting fun h => ?_
    rw [hwaited] at h
    cases h
  · intro b hb' written p hp
    rw [happends] at hb'
    rcases mem_set hb' with hb' | rfl
    · rw [hposition _ (hw.known hb')]
      exact hw.position b hb' written p hp
    · rw [hstage'] at hp
      cases r <;> cases hp
  · rw [hs]
    exact hw.eachAppend
  · rw [hs]
    exact hw.framable
  · rw [hs]
    show ∀ f ∈ d.faults.write, _
    rw [hplan]
    exact fun f hf => hw.nothingTorn f (hsub f hf)

/-- A step of an append under way. -/
theorem Acknowledging.append (hw : w.Acknowledging) (hw' : w'.InOrder) {i : Nat}
    {a a' : Appending} (ha : w.appends[i]? = some a)
    (hadvance : a.advance w.store = some (a', w'.store))
    (happends : w'.appends = w.appends.set i a') : w'.Acknowledging := by
  have hmem : a ∈ w.appends := List.mem_of_getElem? ha
  have hknown := hw.known hmem
  obtain ⟨hclaim, hframe, hmutation⟩ := Appending.advance_claim hadvance
  have hb : a.Became a' := ⟨hclaim, hframe, hmutation⟩
  rcases Appending.advance_stage hadvance hw.eachAppend with ⟨hstage, r, hr, hstage'⟩ |
    ⟨hevolves, hwriting, hwriting', hwritten, hwaited, hposition⟩
  · exact hw.write hw' ha hb hstage hr hstage' happends
  have hlaid := hw.laidOut.evolves hw.inOrder.store.filed hevolves fun a ha => hw.known ha
  refine ⟨hw', ?_, ?_, ?_, ?_, ?_, ?_⟩
  · rw [happends]
    exact hlaid.goOn ha hb hwritten (hwriting'.trans hwriting.symm)
  · rw [happends]
    refine waited_set hw.waited ha hb hwriting' fun h xs ys hsplit => ?_
    rcases hwaited h with hbefore | hfree
    · exact (hsplit ▸ hw.waited a.claim.handle).before hbefore
    · exact (hsplit ▸ hw.laidOut a.claim.handle hknown).written_of_not_awaits hfree
  · intro b hb' written p hp
    rw [happends] at hb'
    rcases mem_set hb' with hb' | rfl
    · rw [hevolves.positionOf (hw.known hb')]
      exact hw.position b hb' written p hp
    · rw [hclaim]
      exact hposition written p hp
  · rw [hevolves.settings]
    exact hw.eachAppend
  · rw [Store.maxPayload, hevolves.settings]
    exact hw.framable
  · exact fun f hf => hw.nothingTorn f (hevolves.faults.write f hf)

theorem Acknowledging.step (hw : w.Acknowledging) {e : Event} (h : w.step e = some w')
    (hids : w'.store.ids.next ≠ 0) : w'.Acknowledging := by
  have hw' := (hw.inOrder.step h hids).1
  rcases step_cases h with ⟨happends, hevolves | ⟨k, p, upTo, hs⟩⟩ |
    ⟨m, frame, c, hm, hc, happends⟩ | ⟨i, a, a', ha, hadvance, happends⟩
  · exact hw.evolves hw' happends hevolves
  · exact hw.noteFlush hw' happends hs
  · exact hw.claim hw' hids hm hc happends
  · exact hw.append hw' ha hadvance happends

theorem Acknowledging.run {allowed : World → Event → World → Prop}
    (hallowed : ∀ w e w', allowed w e w' → w'.store.ids.next ≠ 0) (h : Run allowed w w')
    (hw : w.Acknowledging) : w'.Acknowledging := by
  induction h with
  | refl => exact hw
  | step e _ hstep hcond ih => exact ih.step hstep (hallowed _ e _ hcond)

/-- A store that was just opened has nothing to acknowledge. -/
theorem acknowledging_onDirectory {settings : Settings} {now : UInt64} {disk : Disk}
    {monitor : Monitor} {s : Store} (h : Store.onDirectory settings now disk monitor = .ok s)
    (hdisk : disk.WellFormed) (hcheck : settings.check = .ok ())
    (hsync : settings.sync = .eachAppend)
    (hfaults : ∀ f ∈ disk.faults.write, ∀ count e, f = some (count, e) → count = 0) :
    Acknowledging { store := s } := by
  have hinOrder := inOrder_onDirectory h hdisk
  obtain ⟨found, rfl, -⟩ := Store.onDirectory_cases h
  refine ⟨hinOrder, fun k hk => absurd hk (Nat.not_lt_zero k), fun _ => List.Pairwise.nil,
    fun _ ha => (nomatch ha), hsync, ?_, hfaults⟩
  have hle := ((Settings.check_eq_ok_iff settings).mp hcheck).2.1
  rw [Settings.maxSegmentSize] at hle
  show settings.maxPayload ≤ Frame.maxSize
  rw [Settings.maxPayload, Frame.maxPayload, Frame.maxSize]
  omega

/-- **What is acknowledged is replayed, up to the first gap.** Take any run of a store that was
just opened, that syncs every append, and in which a write that fails has left nothing behind. At
any time after an append has returned a position, while its segment is active, a replay of the
file of that segment applies the record at just that position if and only if no write of an
earlier claim in the segment has failed. -/
theorem acknowledged_replayed_iff {settings : Settings} {now : UInt64} {disk : Disk}
    {monitor : Monitor} {s : Store} (hopen : Store.onDirectory settings now disk monitor = .ok s)
    (hdisk : disk.WellFormed) (hcheck : settings.check = .ok ())
    (hsync : settings.sync = .eachAppend)
    (hfaults : ∀ f ∈ disk.faults.write, ∀ count e, f = some (count, e) → count = 0)
    {w : World} (hrun : Run HasIds { store := s } w) {a : Appending} (ha : a ∈ w.appends)
    {written : Bool} {p : Position} (hreturned : a.stage = .returned written (.ok p))
    (hactive : a.claim.handle ∈ w.store.active) :
    (p, a.mutation.payload) ∈ w.store.replayed a.claim.handle ↔
      ¬ ∃ b ∈ w.appends, b.claim.handle = a.claim.handle ∧ b.claim.offset < a.claim.offset ∧
        b.stage.hasFailed = true := by
  have hw := (acknowledging_onDirectory hopen hdisk hcheck hsync hfaults).run
    (fun _ _ _ h => h) hrun
  obtain ⟨rfl, rfl⟩ := hw.position a ha written p hreturned
  have hwritten : a.stage.isWritten = true := by rw [hreturned]; rfl
  have hlaid := hw.laidOut a.claim.handle (hw.known ha)
  have hwaited := hw.waited a.claim.handle
  obtain ⟨xs, ys, hsplit⟩ := List.append_of_mem (mem_claimedIn.mpr ⟨ha, rfl⟩)
  rw [hsplit] at hlaid hwaited
  have hpos : ∀ b ∈ xs ++ a :: ys, 0 < b.frame.length := fun b hb => hlaid.length_pos hb
  have hbefore : ∀ b, b ∈ xs ↔ b ∈ w.appends ∧ b.claim.handle = a.claim.handle ∧
      b.claim.offset < a.claim.offset := by
    intro b
    rw [← and_assoc, ← mem_claimedIn, hsplit]
    constructor
    · exact fun hb => ⟨List.mem_append_left _ hb, hlaid.tiled.lt_of_before hpos hb⟩
    · rintro ⟨hb, hlt⟩
      rcases List.mem_append.mp hb with hb | hb
      · exact hb
      · rcases List.mem_cons.mp hb with rfl | hb
        · exact absurd hlt (Nat.lt_irrefl _)
        · exact absurd (hlaid.tiled.lt_of_after hpos hb) (Nat.lt_asymm hlt)
  have hrecords : (w.store.positionOf a.claim, a.mutation.payload) ∈
      w.store.replayed a.claim.handle ↔ ∀ b ∈ xs, b.stage.isWritten = true := by
    rw [hw.inOrder.store.housed.replayed_eq hactive, ← hlaid.mem_records_iff hwritten]
    exact mem_positioned
  rw [hrecords]
  constructor
  · rintro hall ⟨b, hb, hhandle, hlt, hfailed⟩
    have hdone := hall b ((hbefore b).mpr ⟨hb, hhandle, hlt⟩)
    rw [Stage.isWritten_iff, hfailed] at hdone
    cases hdone.2
  · intro hnone b hb
    obtain ⟨hmem, hhandle, hlt⟩ := (hbefore b).mp hb
    rw [Stage.isWritten_iff]
    refine ⟨hwaited.before (by rw [hreturned]; rfl) b hb, ?_⟩
    exact Bool.not_eq_true _ ▸ fun hfailed => hnone ⟨b, hmem, hhandle, hlt, hfailed⟩

/-- Of two records, of which the later one is written first, the later one is acknowledged after
both are written, and is replayed. -/
theorem acknowledged_replayed_two_appends :
    ∃ w a, World.follow HasIds
        [.claim (.raw [⟨1⟩] [7, 8, 9]), .claim (.raw [⟨2⟩] [4]), .append 1, .append 0, .append 1,
          .append 1]
        { store := .blank { directory := ⟨[Path.dot]⟩, segmentSize := 100,
                            sync := .eachAppend } 5 } = some w ∧
      a ∈ w.appends ∧ a.stage = .returned true (.ok ⟨5, 15⟩) ∧
      (⟨5, 15⟩, [4]) ∈ w.store.replayed a.claim.handle := by
  have h : (World.follow HasIds
      [.claim (.raw [⟨1⟩] [7, 8, 9]), .claim (.raw [⟨2⟩] [4]), .append 1, .append 0, .append 1,
        .append 1]
      { store := .blank { directory := ⟨[Path.dot]⟩, segmentSize := 100,
                          sync := .eachAppend } 5 }).isSome = true := by decide +kernel
  have hlen : 1 < (Option.get _ h).appends.length := by decide +kernel +revert
  have hactive : ((Option.get _ h).appends.get ⟨1, hlen⟩).claim.handle ∈
      (Option.get _ h).store.active := by decide +kernel +revert
  have hnone : ¬ ∃ b ∈ (Option.get _ h).appends,
      b.claim.handle = ((Option.get _ h).appends.get ⟨1, hlen⟩).claim.handle ∧
        b.claim.offset < ((Option.get _ h).appends.get ⟨1, hlen⟩).claim.offset ∧
        b.stage.hasFailed = true := by decide +kernel +revert
  have hmem := List.get_mem (Option.get _ h).appends ⟨1, hlen⟩
  refine ⟨Option.get _ h, _, (Option.some_get h).symm, hmem, by rfl, ?_⟩
  exact (acknowledged_replayed_iff (Store.onDirectory_blank rfl 5 {}) (Disk.wellFormed_empty {})
    (by rfl) rfl (fun _ hf => (nomatch hf)) (Run.of_follow (Option.some_get h).symm) hmem
    (p := ⟨5, 15⟩) (by rfl) hactive).mpr hnone

/-- If the write of an earlier record fails while a later one waits for it, the later record is
acknowledged nevertheless, and a replay applies nothing at all. -/
theorem acknowledged_behind_gap :
    ∃ w a, World.follow HasIds
        [.claim (.raw [⟨1⟩] [7, 8, 9]), .claim (.raw [⟨2⟩] [4]), .append 0, .append 1, .append 1,
          .append 1]
        { store := .blank { directory := ⟨[Path.dot]⟩, segmentSize := 100, sync := .eachAppend } 5
            { write := [some (0, .device)] } } = some w ∧
      a ∈ w.appends ∧ a.stage = .returned true (.ok ⟨5, 15⟩) ∧
      a.claim.handle ∈ w.store.active ∧ w.store.replayed a.claim.handle = [] := by
  have h : (World.follow HasIds
      [.claim (.raw [⟨1⟩] [7, 8, 9]), .claim (.raw [⟨2⟩] [4]), .append 0, .append 1, .append 1,
        .append 1]
      { store := .blank { directory := ⟨[Path.dot]⟩, segmentSize := 100,
                          sync := .eachAppend } 5
          { write := [some (0, .device)] } }).isSome = true := by decide +kernel
  have hlen : 1 < (Option.get _ h).appends.length := by decide +kernel +revert
  refine ⟨Option.get _ h, (Option.get _ h).appends.get ⟨1, hlen⟩, (Option.some_get h).symm,
    List.get_mem _ _, by rfl, ?_, ?_⟩
  · decide +kernel +revert
  · decide +kernel +revert

end World

end SegmentLog
