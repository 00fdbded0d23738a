import SegmentLog.Proofs.Concurrent.Order
import SegmentLog.Proofs.Store.Holding

/-!
# What is not flushed is not deleted

A record of a partition keeps its segment: from the claim on, and as long as no flush of that
partition reaches it, the segment stays active and marked, and its file stays where it is. It does
not matter what is flushed for other partitions, or how the steps of the callers interleave: a
discard decides and deletes at different moments, but it decides only about sealed segments, in
which nothing can be claimed any more.

* `World.holds_step` — no step takes away a record that was not flushed;
* `World.claimed_record_stays` — nor does any run.
-/

namespace SegmentLog

namespace World

variable {w w' : World} {h : Handle} {p : Partition} {r : Position}

/-- Whether a step is neither a reset nor one in which a discard forgets what a partition has
written from a position on. -/
def Spares (p : Partition) (r : Position) (w : World) : Event → World → Prop
  | .reset, _ => False
  | .discard j, _ => ∀ v ∈ w.walks[j]?, v.stage = .flushing → v.partition = p → v.upTo < r
  | _, _ => True

instance (p : Partition) (r : Position) (w : World) (e : Event) (w' : World) :
    Decidable (w.Spares p r e w') :=
  match e with
  | .discard j => inferInstanceAs (Decidable (∀ v ∈ w.walks[j]?, _))
  | .reset => inferInstanceAs (Decidable False)
  | .claim _ | .append _ | .lookForSpare | .createSpare | .placeSpare _ | .startDiscard _ _
  | .startSync _ | .sync _ | .retireSpare | .delete _ | .keepIdsAbove _ =>
    inferInstanceAs (Decidable True)

theorem holds_append (hw : w.InOrder) {a a' : Appending} {s : Store}
    (ha : w.store.Used w.loose a.claim.handle) (hadvance : a.advance w.store = some (a', s))
    (hh : w.store.Holds h p r) : s.Holds h p r := by
  have hknown := hw.store.known_active hh.active
  rcases Appending.advance_cases hadvance with ⟨-, _, hr, -⟩ | ⟨hevolves, hactive, -⟩
  · obtain ⟨u, d, rfl, -⟩ := Store.write_cases hr ha.known
    exact hh.modify (k := a.claim.handle) (d := d)
      (f := fun g => { g.release a.claim.offset with unsynced := u }) hknown
      fun _ => ⟨rfl, hh.mark⟩
  · exact hh.evolves hevolves hknown (by rw [hactive]; exact hh.active)

/-- A discard takes no segment with a mark: it takes a segment only after it saw that nothing
depends on it, and nothing can come to depend on it after that. -/
theorem holds_discard (hw : w.InOrder) {v v' : Walk} {s : Store} (hv : v ∈ w.walks)
    (hadvance : v.advance w.store = some (v', s))
    (hspares : v.stage = .flushing → v.partition = p → v.upTo < r) (hh : w.store.Holds h p r) :
    s.Holds h p r := by
  have hknown := hw.store.known_active hh.active
  obtain ⟨k, rest, htodo, heffect⟩ := Walk.effect_of_advance hadvance
  cases heffect with
  | flush hstage => exact hh.noteFlush hknown k (hspares hstage)
  | unlink hstage =>
    have hne : h ≠ k := by
      rintro rfl
      exact hh.not_spent (hw.spent v hv hstage h (by rw [htodo]; rfl))
    have hevolves : Store.Evolves w.store { w.store with active := w.store.active.erase k } :=
      .of_eq rfl rfl rfl
    exact hh.evolves hevolves hknown ((List.mem_erase_of_ne hne).mpr hh.active)
  | delete =>
    refine hh.evolves (Store.evolves_deleteFile _ _) hknown ?_
    rw [Store.active_deleteFile]
    exact hh.active
  | spent => exact hh
  | needed => exact hh
  | keep => exact hh
  | stop => exact hh
  | next => exact hh

/-- No step takes away a record that was not flushed. -/
theorem holds_step (hw : w.InOrder) {e : Event} (h' : w.step e = some w')
    (hids : w'.store.ids.next ≠ 0) (hspares : w.Spares p r e w') (hh : w.store.Holds h p r) :
    w'.store.Holds h p r := by
  have hknown := hw.store.known_active hh.active
  cases effect_of_step h' with
  | refused => exact hh
  | denied hm hc => exact hw.store.housed.holds_claim hc hh
  | granted hm hc => exact hw.store.housed.holds_claim hc hh
  | append ha hadvance =>
    exact holds_append hw (hw.appends _ (List.mem_of_getElem? ha)) hadvance hh
  | spareMissing => exact hh
  | spareThere => exact hh
  | spareFailed _ hn =>
    have hh' := hh.evolves (Store.evolves_newSegment hn) hknown
      (by rw [Store.active_newSegment hn]; exact hh.active)
    exact ⟨hh'.active, hh'.id, hh'.mark⟩
  | spareCreated _ hn =>
    exact hh.evolves (Store.evolves_newSegment hn) hknown
      (by rw [Store.active_newSegment hn]; exact hh.active)
  | placeSpare hk =>
    refine hh.evolves (Store.evolves_placeSpare _ _) hknown ?_
    rw [Store.active_placeSpare]
    exact hh.active
  | startDiscard => exact hh
  | discard hv hadvance =>
    exact holds_discard hw (List.mem_of_getElem? hv) hadvance (hspares _ hv) hh
  | startSync => exact hh
  | sync hy hadvance =>
    obtain ⟨hevolves, hactive, -⟩ := Syncing.advance_cases hadvance
    exact hh.evolves hevolves hknown (by rw [hactive]; exact hh.active)
  | retireSpare => exact hh.evolves (.of_eq rfl rfl rfl) hknown hh.active
  | reset => exact hspares.elim
  | delete hk =>
    refine hh.evolves (Store.evolves_deleteFile _ _) hknown ?_
    rw [Store.active_deleteFile]
    exact hh.active
  | keepIdsAbove => exact hh.evolves (.of_eq rfl rfl rfl) hknown hh.active

theorem holds_run {allowed : World → Event → World → Prop}
    (hallowed : ∀ w e w', allowed w e w' → w'.store.ids.next ≠ 0 ∧ w.Spares p r e w')
    (hrun : Run allowed w w') (hw : w.InOrder) (hh : w.store.Holds h p r) :
    w'.InOrder ∧ w'.store.Holds h p r := by
  induction hrun with
  | refl => exact ⟨hw, hh⟩
  | step e _ hstep hcond ih =>
    obtain ⟨hids, hspares⟩ := hallowed _ e _ hcond
    exact ⟨(ih.1.step hstep hids).1, holds_step ih.1 hstep hids hspares ih.2⟩

/-- The locked part of an append that was granted a range is a claim of the store. -/
theorem claim_of_step {m : Mutation} {frame : Bytes} {c : Claim}
    (hstep : w.step (.claim m) = some w')
    (hgranted : w'.appends = w.appends ++ [{ mutation := m, frame, claim := c }]) :
    m.frame w.store.maxPayload = .ok frame ∧
      w.store.claim m.partitions frame.length = (.ok c, w'.store) := by
  have hne : ∀ a : Appending, w.appends ≠ w.appends ++ [a] := by
    intro a he
    have := congrArg List.length he
    rw [List.length_append, List.length_singleton] at this
    omega
  cases effect_of_step hstep with
  | refused => exact absurd hgranted (hne _)
  | denied => exact absurd hgranted (hne _)
  | granted hm hc =>
    have happend := List.append_cancel_left hgranted
    simp only [List.cons.injEq, Appending.mk.injEq, and_true, true_and] at happend
    obtain ⟨rfl, rfl⟩ := happend
    exact ⟨hm, hc⟩

/-- **What is not flushed is not deleted.** Take any run of a store that was just opened, and in
it the locked part of an append that claims a range for a partition among others. However the run
goes on, if it holds no reset, and if no discard forgets what that partition has written up to or
past that range, then the segment of the range is still active, it is still marked for the
partition, at the range or further on, and its file is where it was created. -/
theorem claimed_record_stays {settings : Settings} {now : UInt64} {disk : Disk} {monitor : Monitor}
    {s : Store} (hopen : Store.onDirectory settings now disk monitor = .ok s)
    (hdisk : disk.WellFormed) {w w₁ w₂ : World} (hreach : Run HasIds { store := s } w)
    {m : Mutation} {frame : Bytes} {c : Claim} (hclaim : w.step (.claim m) = some w₁)
    (hids : w₁.store.ids.next ≠ 0)
    (hgranted : w₁.appends = w.appends ++ [{ mutation := m, frame, claim := c }])
    {p : Partition} (hp : p ∈ m.partitions)
    (hrun : Run (fun v e v' => HasIds v e v' ∧ v.Spares p (w₁.store.positionOf c) e v') w₁ w₂) :
    c.handle ∈ w₂.store.active ∧
      (∃ o, (w₂.store.segment c.handle).marks.offset? p = some o ∧ c.offset ≤ o) ∧
      w₂.store.Found c.handle := by
  have hw : w.InOrder := (inOrder_onDirectory hopen hdisk).run (fun _ _ _ h => h) hreach
  have hw₁ : w₁.InOrder := (hw.step hclaim hids).1
  obtain ⟨-, hc⟩ := claim_of_step hclaim hgranted
  have hholds : w₁.store.Holds c.handle p (w₁.store.positionOf c) :=
    hw.store.housed.holds_new hc hp
  obtain ⟨hw₂, hh⟩ := holds_run (fun _ _ _ h => h) hrun hw₁ hholds
  exact ⟨hh.active, hh.mark, hw₂.store.found_active hh.active⟩

/-- A record of two partitions stays while one of them flushes all of it, and while the other
flushes what lies before it. -/
theorem claimed_record_stays_two_flushes :
    ∃ w w₁ w₂ : World,
      w = { store := .blank { directory := ⟨[Path.dot]⟩, segmentSize := 100 } 5 } ∧
      w.step (.claim (.raw [⟨1⟩, ⟨2⟩] [7, 8, 9])) = some w₁ ∧
      w₁.follow (fun v e v' => HasIds v e v' ∧ v.Spares ⟨1⟩ (w₁.store.positionOf ⟨0, 0⟩) e v')
        [.claim (.raw [⟨2⟩] (.replicate 38 0)), .claim (.raw [⟨2⟩] (.replicate 38 0)),
          .startDiscard ⟨2⟩ ⟨5, 100⟩, .discard 0, .discard 0,
          .startDiscard ⟨1⟩ ⟨4, 99⟩, .discard 1] = some w₂ ∧
      0 ∈ w₂.store.active ∧
      (∃ o, (w₂.store.segment 0).marks.offset? ⟨1⟩ = some o ∧ 0 ≤ o) ∧ w₂.store.Found 0 := by
  have h₁ : (({ store := .blank { directory := ⟨[Path.dot]⟩, segmentSize := 100 } 5 } : World).step
    (.claim (.raw [⟨1⟩, ⟨2⟩] [7, 8, 9]))).isSome = true := by decide +kernel
  have h₂ : ((Option.get _ h₁).follow
      (fun v e v' => HasIds v e v' ∧ v.Spares ⟨1⟩ ((Option.get _ h₁).store.positionOf ⟨0, 0⟩) e v')
        [.claim (.raw [⟨2⟩] (.replicate 38 0)), .claim (.raw [⟨2⟩] (.replicate 38 0)),
          .startDiscard ⟨2⟩ ⟨5, 100⟩, .discard 0, .discard 0,
          .startDiscard ⟨1⟩ ⟨4, 99⟩, .discard 1]).isSome = true := by decide +kernel +revert
  refine ⟨_, _, Option.get _ h₂, rfl, (Option.some_get h₁).symm, (Option.some_get h₂).symm, ?_⟩
  exact claimed_record_stays (m := .raw [⟨1⟩, ⟨2⟩] [7, 8, 9]) (c := ⟨0, 0⟩) (p := ⟨1⟩)
    (Store.onDirectory_blank rfl 5 {}) (Disk.wellFormed_empty {}) (.refl _)
    (Option.some_get h₁).symm
    (by decide +kernel +revert) (by rfl) (by decide) (Run.of_follow (Option.some_get h₂).symm)

end World

end SegmentLog
