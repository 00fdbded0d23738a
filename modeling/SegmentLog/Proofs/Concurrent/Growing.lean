import Mathlib.Data.List.Nodup
import SegmentLog.Proofs.Concurrent.Acknowledgement
import SegmentLog.Proofs.Replay.Shelves
import SegmentLog.Proofs.Store.Requests
import SegmentLog.Proofs.Store.Shelved
import SegmentLog.Store.Leftovers

/-!
# Appends of which none is lost

While nothing is discarded and no write fails, a store only grows. However the claims, the writes
and the allocations of its callers interleave, the ranges claimed in a segment follow one another
from its beginning to its cursor; and once every frame is written, each file is the frames of its
ranges and nothing else, in whatever order they were written. So a replay of the active files
applies the record of every append, at its own position, and finds nothing behind them.

* `World.TakesNothing` — the runs of which this is said;
* `World.Growing.step`, `World.Growing.run` — what holds in all of them;
* `Laid.content_eq` — the bytes of a file after all writes;
* `World.Growing.replay_eq` — the records that a replay of them applies;
* `World.appends_replayed_exactly` — what all of this comes to.
-/

namespace SegmentLog

variable {as : List Appending} {a a' : Appending}

/-- A write succeeds if none is to fail, and if it does not reach the limit of a file. -/
theorem Disk.writeAt_ok {d : Disk} (hfaults : ∀ f ∈ d.faults.write, f = none) (id : FileId)
    {offset : Nat} {bytes : Bytes} (hroom : offset + bytes.length < sizeLimit) :
    (d.writeAt id offset bytes).1 = .ok () := by
  have hnext : Faults.next? d.faults.write = none := Faults.next?_eq_none hfaults
  simp only [writeAt, hnext, if_neg (Nat.not_le.mpr hroom)]
  split <;> rfl

/-! ## Files that are written -/

/-- Once every frame is written, a file is what was put into its ranges. -/
theorem Laid.content_eq {g : Segment} {content : Bytes} (h : Laid g content as)
    (hwritten : ∀ a ∈ as, a.stage.isWritten = true) : content = image as := by
  obtain ⟨n, hn⟩ := h.image_eq
  have hlong : (image as).length ≤ content.length := by
    rcases List.eq_nil_or_concat' as with rfl | ⟨front, a, rfl⟩
    · exact Nat.zero_le _
    · -- the last frame ends where the ranges end
      have ha : a ∈ front ++ [a] := List.mem_append_right _ List.mem_cons_self
      have hreach := h.reach a ha (hwritten a ha)
      rw [image_append, image_cons, List.length_append, List.length_append, a.length_image,
        ← h.tiled.offset_eq]
      exact hreach
  have hlen := congrArg List.length hn
  rw [List.length_append, List.length_replicate] at hlen
  rw [hn, show n = 0 by omega]
  exact (List.append_nil content).symm

/-- The records of appends that follow one another from an offset on. -/
theorem Tiled.layOut_eq {start stop : Nat} (h : Tiled start stop as)
    (hframed : ∀ a ∈ as, a.frame = Frame.ofPayload a.mutation.payload) :
    Frame.layOut start (as.map (·.mutation.payload)) =
      as.map fun a => (a.claim.offset, a.mutation.payload) := by
  induction as generalizing start with
  | nil => rfl
  | cons a as ih =>
    obtain ⟨ha, has⟩ := List.forall_mem_cons.mp hframed
    obtain ⟨hoffset, hrest⟩ := h
    rw [ha, Frame.length_ofPayload, ← Nat.add_assoc] at hrest
    rw [List.map_cons, List.map_cons, Frame.layOut, ih hrest has, hoffset]

/-- Ranges that follow one another do not meet. -/
theorem Tiled.disjoint {start stop : Nat} (h : Tiled start stop as) :
    as.Pairwise fun a b => a.claim.offset + a.frame.length ≤ b.claim.offset := by
  induction as generalizing start with
  | nil => exact .nil
  | cons a as ih =>
    obtain ⟨hoffset, hrest⟩ := h
    refine List.pairwise_cons.mpr ⟨fun b hb => ?_, ih hrest⟩
    rw [hoffset]
    exact (hrest.mem_bounds hb).1

/-- Appends are told apart by the segments in which they have claimed. -/
theorem perm_claimedIn {hs : List Handle} (hnodup : hs.Nodup)
    (hall : ∀ a ∈ as, a.claim.handle ∈ hs) : (hs.flatMap (claimedIn as)).Perm as := by
  induction as with
  | nil =>
    rw [List.flatMap_eq_nil_iff.mpr fun k _ => show claimedIn [] k = [] from rfl]
  | cons a as ih =>
    obtain ⟨ha, has⟩ := List.forall_mem_cons.mp hall
    obtain ⟨us, vs, rfl⟩ := List.append_of_mem ha
    have hother : ∀ ws : List Handle, a.claim.handle ∉ ws →
        ws.flatMap (claimedIn (a :: as)) = ws.flatMap (claimedIn as) := fun ws hout =>
      List.flatMap_congr fun k hk => claimedIn_cons_ne fun he => hout (he ▸ hk)
    have hsplit := List.nodup_middle.mp hnodup
    obtain ⟨hout, -⟩ := List.nodup_cons.mp hsplit
    rw [List.mem_append, not_or] at hout
    have hih := ih has
    rw [List.flatMap_append, List.flatMap_cons] at hih ⊢
    rw [hother us hout.1, hother vs hout.2, claimedIn_cons_self, List.cons_append]
    exact List.perm_middle.trans (hih.cons a)

/-! ## What growth keeps -/

/-- Whether every segment has the capacity that the settings give, no more of it is claimed, and no
write is to fail. -/
structure Store.Ample (c : Settings) (s : Store) : Prop where
  settings : s.settings = c
  capacity : ∀ k < s.table.size, (s.segment k).capacity = c.segmentSize.toNat
  room : ∀ k < s.table.size, (s.segment k).cursor ≤ (s.segment k).capacity
  unfailing : ∀ f ∈ s.disk.faults.write, f = none

/-- Whether an append has its range in an active segment, has written its frame there if it was to,
and returns no other position than that of its range. -/
structure Appending.Placed (a : Appending) (s : Store) : Prop where
  active : a.claim.handle ∈ s.active
  written : a.stage.isWriting = true ∨ a.stage.isWritten = true
  position : ∀ written p, a.stage = .returned written (.ok p) → p = s.positionOf a.claim

variable {c : Settings} {s s' : Store} {k : Handle} {f : Segment → Segment} {d : Disk}

theorem Store.Ample.evolves (hs : s.Ample c) (he : s.Evolves s') : s'.Ample c where
  settings := by rw [he.settings]; exact hs.settings
  capacity k hk := by
    by_cases hold : k < s.table.size
    · rw [(he.old k hold).capacity]
      exact hs.capacity k hold
    · rw [he.room k (Nat.le_of_not_lt hold) hk, hs.settings]
  room k hk := by
    by_cases hold : k < s.table.size
    · rw [(he.old k hold).capacity, (he.old k hold).cursor]
      exact hs.room k hold
    · rw [(he.new k (Nat.le_of_not_lt hold) hk).1.cursor]
      exact Nat.zero_le _
  unfailing f hf := hs.unfailing f (he.faults.write f hf)

theorem Store.Ample.modify (hs : s.Ample c)
    (hcapacity : (f (s.segment k)).capacity = (s.segment k).capacity)
    (hroom : k < s.table.size → (f (s.segment k)).cursor ≤ (s.segment k).capacity) :
    (s.modify k f).Ample c := by
  refine ⟨hs.settings, fun j hj => ?_, fun j hj => ?_, hs.unfailing⟩
  · rw [Store.size_modify] at hj
    rw [Store.segment_modify s k j f hj]
    split
    · rename_i he
      subst he
      rw [hcapacity]
      exact hs.capacity k hj
    · exact hs.capacity j hj
  · rw [Store.size_modify] at hj
    rw [Store.segment_modify s k j f hj]
    split
    · rename_i he
      subst he
      rw [hcapacity]
      exact hroom hj
    · exact hs.room j hj

theorem Store.Ample.putDisk (hs : s.Ample c) (hfaults : d.faults.write ⊆ s.disk.faults.write) :
    Store.Ample c { s with disk := d } :=
  ⟨hs.settings, hs.capacity, hs.room, fun g hg => hs.unfailing g (hfaults hg)⟩

theorem Appending.Placed.evolves (ha : a.Placed s) (hknown : a.claim.handle < s.table.size)
    (he : s.Evolves s') (hactive : s.active <+: s'.active) : a.Placed s' where
  active := hactive.subset ha.active
  written := ha.written
  position written p hp := by
    rw [he.positionOf hknown]
    exact ha.position written p hp

theorem Appending.Placed.modify (ha : a.Placed s) (hknown : a.claim.handle < s.table.size)
    (hf : ∀ g, (f g).name = g.name) : a.Placed (s.modify k f) where
  active := ha.active
  written := ha.written
  position written p hp := by
    rw [ha.position written p hp]
    exact (Store.positionOf_modify hknown hf).symm

theorem Appending.Placed.putDisk (ha : a.Placed s) (d : Disk) : a.Placed { s with disk := d } :=
  ⟨ha.active, ha.written, ha.position⟩

/-! ## The world -/

namespace World

/-- Whether a step takes no segment out of its place: whether it belongs neither to a discard nor
to a reset nor to the end of the use. -/
def TakesNothing (_ : World) : Event → World → Prop
  | .startDiscard _ _, _ | .discard _, _ | .retireSpare, _ | .reset, _ | .delete _, _ => False
  | _, _ => True

instance (w : World) (e : Event) (w' : World) : Decidable (w.TakesNothing e w') :=
  match e with
  | .startDiscard _ _ | .discard _ | .retireSpare | .reset | .delete _ =>
    inferInstanceAs (Decidable False)
  | .claim _ | .append _ | .lookForSpare | .createSpare | .placeSpare _ | .startSync _ | .sync _
  | .keepIdsAbove _ => inferInstanceAs (Decidable True)

/-- Whether the store of a world is ample, and every append has its place in it. -/
structure Growing (c : Settings) (w : World) : Prop where
  ample : w.store.Ample c
  housed : w.store.Housed w.loose
  laidOut : w.store.LaidOut w.appends
  placed : ∀ a ∈ w.appends, a.Placed w.store

variable {w w' : World}

theorem Growing.known (hw : w.Growing c) {a : Appending} (ha : a ∈ w.appends) :
    a.claim.handle < w.store.table.size := hw.housed.known_active (hw.placed a ha).active

/-- A step in which nothing is claimed or written, and no segment leaves its place. -/
theorem Growing.evolves (hw : w.Growing c) (hw' : w'.store.Housed w'.loose)
    (happends : w'.appends = w.appends) (he : w.store.Evolves w'.store)
    (hactive : w.store.active <+: w'.store.active) : w'.Growing c where
  ample := hw.ample.evolves he
  housed := hw'
  laidOut := by
    rw [happends]
    exact hw.laidOut.evolves hw.housed.toFiled he fun a ha => hw.known ha
  placed a ha := by
    rw [happends] at ha
    exact (hw.placed a ha).evolves (hw.known ha) he hactive

/-- A claim that is granted. -/
theorem Growing.claim (hw : w.Growing c) (hcheck : c.check = .ok ()) {m : Mutation} {frame : Bytes}
    {claim : Claim} (hm : m.frame w.store.maxPayload = .ok frame)
    (hc : w.store.claim m.partitions frame.length = (.ok claim, w'.store))
    (hloose : w'.loose = w.loose)
    (happends : w'.appends = w.appends ++ [{ mutation := m, frame, claim }]) : w'.Growing c := by
  obtain ⟨-, hpos, hle, hframe⟩ := Mutation.frame_eq_ok_iff.mp hm
  have hframable : w.store.maxPayload ≤ Frame.maxSize := by
    have hmax := ((Settings.check_eq_ok_iff c).mp hcheck).2.1
    rw [Settings.maxSegmentSize] at hmax
    rw [Store.maxPayload, hw.ample.settings, Settings.maxPayload, Frame.maxPayload, Frame.maxSize]
    omega
  have hlaid := hw.laidOut.claim hw.housed hc (fun a ha => hw.known ha)
    ⟨⟨hpos, Nat.le_trans hle hframable⟩, hframe⟩
  obtain ⟨hs', hprefix, ⟨_, hr, -⟩ | ⟨s₁, _, hr, hs₁, hevolves, ht, hfits, -, hs⟩⟩ :=
    hw.housed.claim hc
  · cases hr
  cases hr
  have htail := Store.mem_of_tail? ht
  constructor
  case ample =>
    rw [hs]
    refine (hw.ample.evolves hevolves).modify ?_ fun _ => ?_
    · rfl
    · exact of_decide_eq_true hfits
  case housed =>
    rw [hloose]
    exact hs'
  case laidOut =>
    rw [happends]
    exact hlaid
  case placed =>
    intro a ha
    rw [happends] at ha
    rw [hs] at hprefix ⊢
    rcases List.mem_append.mp ha with ha | ha
    · -- the segment was chosen before the range was claimed
      have hplaced := (hw.placed a ha).evolves (hw.known ha) hevolves hprefix
      exact hplaced.modify (hs₁.known_active hplaced.active) fun _ => rfl
    · rw [List.mem_singleton.mp ha]
      exact ⟨htail, .inl rfl, fun _ _ hp => by cases hp⟩

/-- An append that goes on without writing, or returns. -/
theorem Growing.goOn (hw : w.Growing c) {i : Nat} {a a' : Appending} (ha : w.appends[i]? = some a)
    (hb : a.Became a') (hs' : w'.store.Housed w.loose) (hevolves : w.store.Evolves w'.store)
    (hactive : w'.store.active = w.store.active) (hwriting : a.stage.isWriting = false)
    (hwriting' : a'.stage.isWriting = false) (hwritten : a'.stage.isWritten = a.stage.isWritten)
    (hposition : ∀ written p, a'.stage = .returned written (.ok p) →
      p = w'.store.positionOf a.claim)
    (hloose : w'.loose = w.loose) (happends : w'.appends = w.appends.set i a') :
    w'.Growing c := by
  have hmem := List.mem_of_getElem? ha
  have hplaced := hw.placed a hmem
  -- the appends are as they were while the store goes on
  have hbetween : Growing c { w with store := w'.store } :=
    hw.evolves hs' rfl hevolves ⟨[], by rw [List.append_nil]; exact hactive.symm⟩
  refine ⟨hbetween.ample, by rw [hloose]; exact hs', ?_, fun b hb' => ?_⟩
  · rw [happends]
    exact hbetween.laidOut.goOn ha hb hwritten (hwriting'.trans hwriting.symm)
  · rw [happends] at hb'
    rcases mem_set hb' with hb' | rfl
    · exact hbetween.placed b hb'
    · refine ⟨?_, .inr ?_, by rw [hb.claim]; exact hposition⟩
      · rw [hb.claim, hactive]
        exact hplaced.active
      · rw [hwritten]
        refine hplaced.written.resolve_left ?_
        rw [hwriting]
        exact Bool.false_ne_true

/-- A write into a range that was claimed does not fail: the range lies in its segment, and so below
the limit of a file. -/
theorem Growing.write_ok (hw : w.Growing c) (hcheck : c.check = .ok ()) {a : Appending}
    (ha : a ∈ w.appends) {r : Except DiskError Unit} {s : Store}
    (hr : w.store.write a.claim a.frame = (r, s)) : r = .ok () := by
  have hknown := hw.known ha
  obtain ⟨u, d, -, hd⟩ := Store.write_cases hr hknown
  have hbound := ((hw.laidOut _ hknown).tiled.mem_bounds (mem_claimedIn.mpr ⟨ha, rfl⟩)).2
  have hroom := hw.ample.room _ hknown
  have hmax := ((Settings.check_eq_ok_iff c).mp hcheck).2.1
  rw [hw.ample.capacity _ hknown] at hroom
  rw [Settings.maxSegmentSize] at hmax
  have hfits : a.claim.offset + a.frame.length < Disk.sizeLimit := by
    rw [Disk.sizeLimit]
    omega
  rw [← Disk.writeAt_ok hw.ample.unfailing (w.store.segment a.claim.handle).file hfits, hd]

/-- A frame that is written into its range. -/
theorem Growing.write (hw : w.Growing c) (hcheck : c.check = .ok ()) {i : Nat} {a a' : Appending}
    (ha : w.appends[i]? = some a) (hb : a.Became a') (hstage : a.stage = .writing)
    {r : Except DiskError Unit} (hr : w.store.write a.claim a.frame = (r, w'.store))
    (hstage' : r = .ok () → a'.stage = if w'.store.settings.sync = .eachAppend then .waiting
      else .returned true (.ok (w'.store.positionOf a.claim)))
    (hloose : w'.loose = w.loose) (happends : w'.appends = w.appends.set i a') :
    w'.Growing c := by
  have hmem := List.mem_of_getElem? ha
  have hknown := hw.known hmem
  have hs' := hw.housed.write hr hknown
  obtain rfl := hw.write_ok hcheck hmem hr
  obtain ⟨u, d, hs, hd⟩ := Store.write_cases hr hknown
  obtain ⟨hwriting, hwritten, hposition⟩ : a'.stage.isWriting = false ∧ a'.stage.isWritten = true ∧
      ∀ written p, a'.stage = .returned written (.ok p) → p = w'.store.positionOf a.claim := by
    rw [hstage' rfl]
    split
    · exact ⟨rfl, rfl, fun _ _ hp => by cases hp⟩
    · refine ⟨rfl, rfl, fun written p hp => ?_⟩
      cases hp
      rfl
  have hlaid := hw.laidOut.write hw.housed.toFiled ha hknown hr
    (fun f hf count e he => by rw [hw.ample.unfailing f hf] at he; cases he) hb hwriting hwritten
    (by rw [hstage]; rfl)
  constructor
  case ample =>
    obtain ⟨plan, hplan, hsub⟩ := (Disk.writeAt_cases hd (hw.housed.files _ hknown)).1.faults
    rw [hs]
    refine (hw.ample.modify rfl fun hk => hw.ample.room _ hk).putDisk ?_
    rw [hplan]
    exact hsub
  case housed =>
    rw [hloose]
    exact hs'
  case laidOut =>
    rw [happends]
    exact hlaid
  case placed =>
    intro b hb'
    rw [happends] at hb'
    rcases mem_set hb' with hb' | rfl
    · rw [hs]
      refine Appending.Placed.putDisk ?_ d
      exact (hw.placed b hb').modify (hw.known hb') fun _ => rfl
    · refine ⟨?_, .inr hwritten, by rw [hb.claim]; exact hposition⟩
      rw [hb.claim, hs]
      exact (hw.placed a hmem).active

/-- A step of an append under way. -/
theorem Growing.append (hw : w.Growing c) (hcheck : c.check = .ok ()) {i : Nat} {a a' : Appending}
    (ha : w.appends[i]? = some a) (hadvance : a.advance w.store = some (a', w'.store))
    (hloose : w'.loose = w.loose) (happends : w'.appends = w.appends.set i a') :
    w'.Growing c := by
  obtain ⟨hclaim, hframe, hmutation⟩ := Appending.advance_claim hadvance
  have hb : a.Became a' := ⟨hclaim, hframe, hmutation⟩
  rcases Appending.advance_cases hadvance with ⟨hstage, r, hr, hstage'⟩ |
    ⟨hevolves, hactive, -, hchange, hwriting, hwriting', hwritten, hposition⟩
  · refine hw.write hcheck ha hb hstage hr (fun hok => ?_) hloose happends
    rw [hstage', hok]
  · refine hw.goOn ha hb ?_ hevolves hactive hwriting hwriting' hwritten hposition hloose happends
    rcases hchange with hs | ⟨r, hr⟩ | ⟨cause, hs⟩
    · rw [hs]
      exact hw.housed
    · exact hw.housed.syncSegment hr
    · rw [hs]
      exact hw.housed.giveUp _ cause

/-- Every step that takes nothing lets the store grow. -/
theorem Growing.step (hw : w.Growing c) (hcheck : c.check = .ok ()) {e : Event}
    (h : w.step e = some w') (hcond : w.TakesNothing e w') : w'.Growing c := by
  have hsame : w.store.active <+: w.store.active := List.prefix_refl _
  cases effect_of_step h with
  | refused => exact hw
  | denied _ hc =>
    obtain ⟨hs', hprefix, ⟨_, -, hevolves⟩ | ⟨_, _, hr, -⟩⟩ := hw.housed.claim hc
    · exact hw.evolves hs' rfl hevolves hprefix
    · cases hr
  | granted hm hc => exact hw.claim hcheck hm hc rfl rfl
  | append ha hadvance => exact hw.append hcheck ha hadvance rfl rfl
  | spareMissing => exact hw.evolves hw.housed rfl (.refl _) hsame
  | spareThere => exact hw
  | spareFailed _ hn =>
    obtain ⟨hactive, -, ⟨_, -, hs'⟩ | ⟨hr, -⟩⟩ := hw.housed.newSegment hn
    · exact hw.evolves (hs'.of_eq rfl rfl rfl rfl rfl) rfl
        ((Store.evolves_newSegment hn).trans (.of_eq rfl rfl rfl)) (hactive ▸ hsame)
    · cases hr
  | spareCreated _ hn =>
    obtain ⟨hactive, -, ⟨_, hr, -⟩ | ⟨hr, hs'⟩⟩ := hw.housed.newSegment hn
    · cases hr
    · cases hr
      exact hw.evolves hs' rfl (Store.evolves_newSegment hn) (hactive ▸ hsame)
  | @placeSpare k hk =>
    have hactive := Store.active_placeSpare w.store k
    exact hw.evolves (hw.housed.perm (List.perm_cons_erase hk)).placeSpare rfl
      (Store.evolves_placeSpare _ _) (hactive ▸ hsame)
  | startDiscard => exact hcond.elim
  | discard => exact hcond.elim
  | startSync => exact hw.evolves hw.housed rfl (.refl _) hsame
  | sync _ hadvance =>
    obtain ⟨hevolves, hactive, -, k, -, -, hchange⟩ := Syncing.advance_cases hadvance
    refine hw.evolves ?_ rfl hevolves (hactive ▸ hsame)
    rcases hchange with ⟨r, hr⟩ | ⟨cause, rfl⟩ | ⟨cause, rfl⟩
    · exact hw.housed.syncSegment hr
    · exact hw.housed.giveUp k cause
    · exact hw.housed.of_eq rfl rfl rfl rfl rfl
  | retireSpare => exact hcond.elim
  | reset => exact hcond.elim
  | delete => exact hcond.elim
  | keepIdsAbove =>
    exact hw.evolves (hw.housed.of_eq rfl rfl rfl rfl rfl) rfl (.of_eq rfl rfl rfl) hsame

theorem Growing.run (hw : w.Growing c) (hcheck : c.check = .ok ()) (h : Run TakesNothing w w') :
    w'.Growing c := by
  induction h with
  | refl => exact hw
  | step e _ hstep hcond ih => exact ih.step hcheck hstep hcond

theorem growing_onDirectory {now : UInt64} {disk : Disk} {monitor : Monitor} {s : Store}
    (h : Store.onDirectory c now disk monitor = .ok s) (hdisk : disk.WellFormed)
    (hfaults : ∀ f ∈ disk.faults.write, f = none) : Growing c { store := s } := by
  have hs := Store.housed_onDirectory h hdisk
  obtain ⟨found, rfl, -⟩ := Store.onDirectory_cases h
  exact ⟨⟨rfl, fun k hk => absurd hk (Nat.not_lt_zero k), fun k hk => absurd hk (Nat.not_lt_zero k),
    hfaults⟩, hs, fun k hk => absurd hk (Nat.not_lt_zero k), fun _ ha => (nomatch ha)⟩

/-! ## When every frame is written -/

/-- The record of an append, at its position. -/
def record (w : World) (a : Appending) : Position × Bytes :=
  (w.store.positionOf a.claim, a.mutation.payload)

/-- The file of a segment is the frames of its ranges. -/
theorem Growing.content_eq (hw : w.Growing c) (hdone : ∀ a ∈ w.appends, a.stage.isWriting = false)
    {k : Handle} (hk : k < w.store.table.size) :
    w.store.disk.content (w.store.segment k).file =
      Frame.spell ((claimedIn w.appends k).map (·.mutation.payload)) := by
  have hlaid := hw.laidOut k hk
  have hwritten : ∀ a ∈ claimedIn w.appends k, a.stage.isWritten = true := by
    intro a ha
    have hmem := (mem_claimedIn.mp ha).1
    refine (hw.placed a hmem).written.resolve_left ?_
    rw [hdone a hmem]
    exact Bool.false_ne_true
  rw [hlaid.content_eq hwritten, image_written (hlaid.frame_eq fun _ ha => ha) hwritten]

/-- The records of the file of a segment are those of the appends that have claimed in it. -/
theorem Growing.recordsOf_eq (hw : w.Growing c)
    (hdone : ∀ a ∈ w.appends, a.stage.isWriting = false) {k : Handle}
    (hk : k < w.store.table.size) :
    w.store.disk.recordsOf (w.store.volume k) = (claimedIn w.appends k).map w.record := by
  have hlaid := hw.laidOut k hk
  have hclean : Tail.Describes .clean [] := rfl
  have hcontent : w.store.disk.content (w.store.segment k).file =
      Frame.spell ((claimedIn w.appends k).map (·.mutation.payload)) ++ [] := by
    rw [List.append_nil]
    exact hw.content_eq hdone hk
  rw [Disk.recordsOf_spell hlaid.framable hclean hcontent,
    hlaid.tiled.layOut_eq (hlaid.frame_eq fun _ ha => ha), positioned, List.map_map]
  refine List.map_congr_left fun a ha => ?_
  obtain ⟨-, rfl⟩ := mem_claimedIn.mp ha
  rfl

/-- Active segments are told apart by their numbers. -/
theorem id_injective {s : Store} {loose : List Handle} (hs : s.Housed loose) {g h : Handle}
    (hg : g ∈ s.active) (hh : h ∈ s.active) (he : (s.segment g).id = (s.segment h).id) : g = h := by
  by_contra hne
  have hg' := hs.known_active hg
  have hh' := hs.known_active hh
  -- segments of one number have one path, at which there is one file
  have hpath : (s.segment g).path = (s.segment h).path := by
    rw [hs.placed g hg', hs.placed h hh', hs.named g hg', hs.named h hh', he]
  obtain ⟨q, hq⟩ := hs.found_active hg
  obtain ⟨r, hr⟩ := hs.found_active hh
  rw [hpath, hr, Except.ok.injEq, Prod.mk.injEq, Node.file.injEq] at hq
  exact hs.toFiled.file_ne hg' hh' hne hq.2.symm

/-- No two appends have one position. -/
theorem Growing.nodup_positions (hw : w.Growing c) :
    (w.appends.map fun a => w.store.positionOf a.claim).Nodup := by
  have hnodup := (List.nodup_append.mp hw.housed.distinct).1
  have hperm := perm_claimedIn hnodup fun a ha => (hw.placed a ha).active
  refine (hperm.map _).nodup_iff.mp ?_
  rw [List.map_flatMap, List.nodup_flatMap]
  constructor
  · intro k hk
    have hlaid := hw.laidOut k (hw.housed.known_active hk)
    refine List.pairwise_map.mpr (hlaid.tiled.disjoint.imp_of_mem fun {a b} ha hb hle he => ?_)
    have hlen := hlaid.length_pos ha
    have hoffset : a.claim.offset = b.claim.offset := congrArg Position.offset he
    omega
  · refine hnodup.imp_of_mem fun {g h} hg hh hne => ?_
    refine List.disjoint_left.mpr fun p hp hp' => ?_
    obtain ⟨a, ha, rfl⟩ := List.mem_map.mp hp
    obtain ⟨b, hb, he⟩ := List.mem_map.mp hp'
    obtain ⟨-, rfl⟩ := mem_claimedIn.mp ha
    obtain ⟨-, rfl⟩ := mem_claimedIn.mp hb
    exact hne (id_injective hw.housed hg hh (congrArg Position.segment he).symm)

/-- The active files store the record of every append, once. -/
theorem Growing.stored_perm (hw : w.Growing c) (hdone : ∀ a ∈ w.appends, a.stage.isWriting = false)
    {hs : List Handle} (hperm : hs.Perm w.store.active) {sorted : List Volume}
    (hsorted : sorted.Perm (hs.map w.store.volume)) :
    (w.store.disk.stored sorted).Perm (w.appends.map w.record) := by
  have hnodup : hs.Nodup := hperm.nodup_iff.mpr (List.nodup_append.mp hw.housed.distinct).1
  have heach : (hs.map w.store.volume).flatMap w.store.disk.recordsOf =
      (hs.flatMap (claimedIn w.appends)).map w.record := by
    rw [List.flatMap_map, List.map_flatMap]
    exact List.flatMap_congr fun k hk =>
      hw.recordsOf_eq hdone (hw.housed.known_active (hperm.subset hk))
  refine (hsorted.flatMap_right _).trans ?_
  rw [heach]
  exact (perm_claimedIn hnodup fun a ha => hperm.symm.subset (hw.placed a ha).active).map _

/-- The path that a replay would write for an active segment leads to its file. -/
theorem Growing.find_volume (hw : w.Growing c) {k : Handle} (hk : k ∈ w.store.active) :
    (w.store.volume k).path c.directory c.stem = (w.store.segment k).path ∧
      ∃ q, w.store.disk.find ((w.store.volume k).path c.directory c.stem) =
        .ok (q, .file (w.store.volume k).file) := by
  have hpath : (w.store.volume k).path c.directory c.stem = (w.store.segment k).path := by
    rw [hw.housed.path_eq (hw.housed.known_active hk), hw.ample.settings]
  obtain ⟨q, hq⟩ := hw.housed.found_active hk
  exact ⟨hpath, q, by rw [hpath]; exact hq⟩

/-- A replay of the active files applies the record of every append, and finds nothing behind
them. -/
theorem Growing.replay_eq (hw : w.Growing c) (hdone : ∀ a ∈ w.appends, a.stage.isWriting = false)
    (hstem : '/' ∉ c.stem.toList) {hs : List Handle} (hperm : hs.Perm w.store.active)
    {σ : Type} {target : Target σ} (ht : target.NeverFails) (state : σ) :
    ∃ records report s', records.Perm (w.appends.map w.record) ∧
      w.store.replay target (hs.map fun h => (w.store.segment h).path) state =
        (.ok report, s', (target.flush (target.feed records state)).2) ∧
      (report.files.map (·.path)).Perm (hs.map fun h => (w.store.segment h).path) ∧
      ∀ f ∈ report.files, f.tail = .clean := by
  have hpaths : (hs.map fun h => (w.store.segment h).path) =
      (hs.map w.store.volume).map (·.path c.directory c.stem) := by
    rw [List.map_map]
    exact List.map_congr_left fun k hk => (hw.find_volume (hperm.subset hk)).1.symm
  have hnames : ∀ v ∈ hs.map w.store.volume,
      Disk.IsName ((SegmentName.ofId v.id).fileName c.stem) := by
    intro v hv
    obtain ⟨k, hk, rfl⟩ := List.mem_map.mp hv
    obtain ⟨-, q, hq⟩ := hw.find_volume (hperm.subset hk)
    exact (SegmentName.name_of_locate hstem (Disk.find_eq_ok_iff.mp hq).1).2
  have hcontents : ∀ v ∈ hs.map w.store.volume,
      w.store.disk.contents (v.path c.directory c.stem) = .ok (w.store.disk.content v.file) := by
    intro v hv
    obtain ⟨k, hk, rfl⟩ := List.mem_map.mp hv
    rw [(hw.find_volume (hperm.subset hk)).1]
    exact hw.housed.contents (hperm.subset hk)
  obtain ⟨sorted, report, hsorted, hrun, hfiles⟩ := Replay.run_volumes ht hnames hcontents state
  obtain ⟨s', hreplay⟩ : ∃ s',
      w.store.replay target (hs.map fun h => (w.store.segment h).path) state =
        (.ok report, s', (target.flush (target.feed (w.store.disk.stored sorted) state)).2) := by
    unfold Store.replay
    rw [hw.ample.settings, hpaths, hrun]
    dsimp only
    split
    · exact ⟨_, rfl⟩
    · exact ⟨_, rfl⟩
  refine ⟨_, report, s', hw.stored_perm hdone hperm hsorted, hreplay, ?_, fun f hf => ?_⟩
  · rw [hfiles, List.map_map, hpaths]
    exact hsorted.map _
  · rw [hfiles] at hf
    obtain ⟨v, hv, rfl⟩ := List.mem_map.mp hf
    obtain ⟨k, hk, rfl⟩ := List.mem_map.mp (hsorted.subset hv)
    have hknown := hw.housed.known_active (hperm.subset hk)
    show (Scan.ofBytes (w.store.disk.content (w.store.segment k).file)).tail = .clean
    rw [hw.content_eq hdone hknown, Scan.ofBytes_spell_clean (hw.laidOut k hknown).framable]

/-! ## What the runs come to -/

/-- Whether the ranges claimed in each segment follow one another from its beginning to its cursor,
none meets another, and none reaches beyond the segment. -/
structure Packed (w : World) : Prop where
  tiled : ∀ k < w.store.table.size,
    Tiled 0 (w.store.segment k).cursor (claimedIn w.appends k)
  apart : ∀ k < w.store.table.size, (claimedIn w.appends k).Pairwise fun a b =>
    a.claim.offset + a.frame.length ≤ b.claim.offset
  room : ∀ k < w.store.table.size,
    (w.store.segment k).cursor ≤ (w.store.segment k).capacity

/-- Whether a replay of the active files, in whatever order they are given, applies the record of
every append once, at its own position, and finds nothing behind the records of any file. -/
structure Restorable (w : World) : Prop where
  distinct : (w.appends.map fun a => w.store.positionOf a.claim).Nodup
  replay : ∀ {hs : List Handle}, hs.Perm w.store.active →
    ∀ {σ : Type} {target : Target σ}, target.NeverFails → ∀ state : σ,
      ∃ records report s', records.Perm (w.appends.map w.record) ∧
        w.store.replay target (hs.map fun h => (w.store.segment h).path) state =
          (.ok report, s', (target.flush (target.feed records state)).2) ∧
        (report.files.map (·.path)).Perm (hs.map fun h => (w.store.segment h).path) ∧
        ∀ f ∈ report.files, f.tail = .clean

/-- **No append is lost.** Take any run of a store that was just opened with settings that were
checked, in which no write is to fail and no segment is taken out. At any time the ranges claimed in
each segment follow one another from its beginning to its cursor within its capacity, and whatever
an append has returned is the position of its range. At any time when no frame is still to be
written, each active file is the frames of its ranges in the order of their claims and nothing
else; and if the stem has no separator in it, a replay of the active files applies every record at
its position. -/
theorem appends_replayed_exactly {now : UInt64} {disk : Disk} {monitor : Monitor} {s : Store}
    (hopen : Store.onDirectory c now disk monitor = .ok s) (hdisk : disk.WellFormed)
    (hcheck : c.check = .ok ()) (hfaults : ∀ f ∈ disk.faults.write, f = none)
    (hrun : Run TakesNothing { store := s } w) :
    w.Packed ∧
    (∀ a ∈ w.appends, a.claim.handle ∈ w.store.active ∧
      a.frame = Frame.ofPayload a.mutation.payload ∧
      ∀ written p, a.stage = .returned written (.ok p) → p = w.store.positionOf a.claim) ∧
    ((∀ a ∈ w.appends, a.stage.isWriting = false) →
      (∀ k ∈ w.store.active, w.store.disk.contents (w.store.segment k).path =
        .ok ((claimedIn w.appends k).flatMap (·.frame))) ∧
      ('/' ∉ c.stem.toList → w.Restorable)) := by
  have hw := (growing_onDirectory hopen hdisk hfaults).run hcheck hrun
  have htiled : ∀ k < w.store.table.size, Tiled 0 (w.store.segment k).cursor
      (claimedIn w.appends k) := fun k hk => (hw.laidOut k hk).tiled
  refine ⟨⟨htiled, fun k hk => (htiled k hk).disjoint, hw.ample.room⟩, fun a ha => ?_,
    fun hdone => ⟨fun k hk => ?_, fun hstem => ?_⟩⟩
  · have hframe := (hw.laidOut _ (hw.known ha)).frame_eq (fun _ h => h) a
      (mem_claimedIn.mpr ⟨ha, rfl⟩)
    exact ⟨(hw.placed a ha).active, hframe, (hw.placed a ha).position⟩
  · have hlaid := hw.laidOut k (hw.housed.known_active hk)
    rw [hw.housed.contents hk, hw.content_eq hdone (hw.housed.known_active hk), Frame.spell,
      List.map_map, ← List.flatMap_def]
    exact congrArg _ (List.flatMap_congr fun a ha => (hlaid.frame_eq (fun _ h => h) a ha).symm)
  · exact ⟨hw.nodup_positions, fun hperm _ _ ht state => hw.replay_eq hdone hstem hperm ht state⟩

/-- Of three appends the second is written first, and the third goes into what was the spare. -/
theorem appends_replayed_three_written :
    ∃ w, World.follow TakesNothing
        [.claim (.raw [⟨1⟩] [7, 8, 9]), .lookForSpare, .createSpare, .claim (.raw [⟨2⟩] [4]),
          .placeSpare 1, .append 1, .claim (.raw [⟨1⟩] [5, 6, 7]), .append 2, .append 0]
        { store := .blank { directory := ⟨[Path.dot]⟩, segmentSize := 30 } 5 } = some w ∧
      w.store.disk.contents (w.store.segment 0).path =
        .ok (Frame.ofPayload [7, 8, 9] ++ Frame.ofPayload [4]) ∧
      w.appends.map w.record = [(⟨5, 0⟩, [7, 8, 9]), (⟨5, 15⟩, [4]), (⟨6, 0⟩, [5, 6, 7])] ∧
      w.Restorable := by
  have h : (World.follow TakesNothing
      [.claim (.raw [⟨1⟩] [7, 8, 9]), .lookForSpare, .createSpare, .claim (.raw [⟨2⟩] [4]),
        .placeSpare 1, .append 1, .claim (.raw [⟨1⟩] [5, 6, 7]), .append 2, .append 0]
      { store := .blank { directory := ⟨[Path.dot]⟩, segmentSize := 30 } 5 }).isSome = true := by
    decide +kernel
  obtain ⟨hdone, hactive, hframes, hrecords⟩ :
      (∀ a ∈ (Option.get _ h).appends, a.stage.isWriting = false) ∧
      0 ∈ (Option.get _ h).store.active ∧
      (claimedIn (Option.get _ h).appends 0).flatMap (·.frame) =
        Frame.ofPayload [7, 8, 9] ++ Frame.ofPayload [4] ∧
      (Option.get _ h).appends.map (Option.get _ h).record =
        [(⟨5, 0⟩, [7, 8, 9]), (⟨5, 15⟩, [4]), (⟨6, 0⟩, [5, 6, 7])] := by decide +kernel +revert
  obtain ⟨-, -, hall⟩ := appends_replayed_exactly (Store.onDirectory_blank rfl 5 {})
    (Disk.wellFormed_empty {}) (by rfl) (fun _ hf => (nomatch hf))
    (Run.of_follow (Option.some_get h).symm)
  obtain ⟨hcontents, hrestorable⟩ := hall hdone
  have hcontent := hcontents 0 hactive
  rw [hframes] at hcontent
  exact ⟨_, (Option.some_get h).symm, hcontent, hrecords, hrestorable (by decide)⟩

/-- The check of the settings lets a stem pass that has a separator in it. The last part of such a
path is no segment name of the stem, so what is written can not be replayed. -/
theorem appends_not_replayed_with_separator :
    ∃ w, World.follow TakesNothing [.claim (.raw [⟨1⟩] [7, 8, 9]), .append 0]
        { store := .blank { directory := ⟨[Path.dot]⟩, segmentSize := 30, stem := "./x" } 5 } =
          some w ∧
      w.store.settings.check = .ok () ∧ (∀ a ∈ w.appends, a.stage.isWriting = false) ∧
      (∀ {σ : Type} (target : Target σ) (state : σ),
        w.store.replay target (w.store.active.map fun h => (w.store.segment h).path) state =
          (.error (.invalidName "x-3-5.log"), w.store, state)) ∧
      ¬ w.Restorable := by
  have h : (World.follow TakesNothing [.claim (.raw [⟨1⟩] [7, 8, 9]), .append 0]
      { store := .blank { directory := ⟨[Path.dot]⟩, segmentSize := 30,
                          stem := "./x" } 5 }).isSome = true := by decide +kernel
  obtain ⟨hcheck, hdone, hnames⟩ :
      (Option.get _ h).store.settings.check = .ok () ∧
      (∀ a ∈ (Option.get _ h).appends, a.stage.isWriting = false) ∧
      ({ stem := (Option.get _ h).store.settings.stem } : Replay).names
        ((Option.get _ h).store.active.map fun k => ((Option.get _ h).store.segment k).path) =
          .error (.invalidName "x-3-5.log") := by decide +kernel +revert
  have hreplay : ∀ {σ : Type} (target : Target σ) (state : σ),
      (Option.get _ h).store.replay target
        ((Option.get _ h).store.active.map fun k => ((Option.get _ h).store.segment k).path) state =
          (.error (.invalidName "x-3-5.log"), (Option.get _ h).store, state) := by
    intro σ target state
    rw [Store.replay, Replay.run, hnames]
  refine ⟨_, (Option.some_get h).symm, hcheck, hdone, hreplay, fun hw => ?_⟩
  obtain ⟨_, _, _, -, hr, -⟩ := hw.replay (.refl _)
    ⟨Target.accepting_total fun _ _ s => s, fun _ => rfl⟩ ()
  rw [hreplay] at hr
  cases hr

end World

end SegmentLog
