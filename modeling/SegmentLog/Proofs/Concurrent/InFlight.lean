import SegmentLog.Proofs.Concurrent.Order
import SegmentLog.Proofs.Store.Discarding

/-!
# Records that are still to be written

Between its claim and its write a record is nowhere but in the claim, and its segment must stay
where it is until the frame has reached the file. A discard never asks what is still to be written
in a segment: it asks whether the segment is sealed, and whether a mark is left in it. So a record
on its way keeps its segment exactly as long as these two do.

* `World.active_step` — a step takes a segment out of the active ones only if it is spent;
* `World.taken_of_spent` — a segment that is spent is taken out by the next discard;
* `World.writing_stays` — what that means for records that are still to be written;
* `World.taken_before_written` — how a segment is deleted before a record in it is written.
-/

namespace SegmentLog

/-- Whether all segments are taken out at once. -/
def Event.isReset : Event → Bool
  | .reset => true
  | _ => false

/-! ## Segments that leave -/

namespace Walk

theorem ids_advance {v v' : Walk} {s s' : Store} (h : v.advance s = some (v', s')) :
    s'.ids = s.ids := by
  obtain ⟨k, rest, -, heffect⟩ := effect_of_advance h
  cases heffect with
  | delete =>
    cases hd : s.deleteFile k with
    | mk r t =>
      obtain ⟨d, rfl, -⟩ := Store.deleteFile_cases hd
      rfl
  | flush | spent | needed | unlink | keep | stop | next => rfl

end Walk

namespace Store

variable {s : Store} {loose : List Handle}

/-- A discard up to the end of the log comes to every active segment. -/
theorem Sound.mem_visited_position (hs : s.Sound loose) {h : Handle} (hh : h ∈ s.active) :
    h ∈ s.visited s.position := by
  refine hs.mem_visited hh ?_
  rw [position]
  cases ht : s.tail? with
  | none =>
    rw [List.getLast?_eq_none_iff.mp ht] at hh
    cases hh
  | some t =>
    refine UInt64.not_lt.mp fun hlt => Nat.not_lt.mpr (hs.le_tail ht hh) ?_
    exact (hs.id_lt_iff (hs.known_active (mem_of_tail? ht)) (hs.known_active hh)).mp hlt

/-- A discard up to the end of the log takes out every segment that is spent. -/
theorem Sound.discard_spent (hs : s.Sound loose) {h : Handle} (hh : h ∈ s.active)
    (hspent : (s.segment h).isSpent = true) (p : Partition) :
    h ∉ (s.discard p s.position).active := by
  have hnodup : s.active.Nodup := hs.ascending_active.imp fun hlt => Nat.ne_of_lt hlt
  have hflushed : ((s.segment h).noteFlush p s.position).isSpent = true := by
    have hspent' := (follows_noteFlush s loose h p s.position).spent h (hs.known_active hh) hspent
    rwa [segment_noteFlush, if_pos rfl] at hspent'
  rw [active_discard hnodup, List.mem_filter, hflushed,
    decide_eq_false (not_not_intro (hs.mem_visited_position hh))]
  exact fun hc => Bool.false_ne_true hc.2

end Store

namespace World

variable {w w' : World} {a : Appending} {h : Handle}

/-- Whether a step is no reset, and numbers do not run out with it. -/
def Calm (w : World) (e : Event) (w' : World) : Prop := HasIds w e w' ∧ e.isReset = false

/-- No step but a reset takes a segment out of the active ones as long as something depends on
it. -/
theorem active_step (hw : w.InOrder) {e : Event} (hstep : w.step e = some w')
    (hreset : e.isReset = false) (hh : h ∈ w.store.active)
    (hneeded : (w.store.segment h).isSpent = false) : h ∈ w'.store.active := by
  cases effect_of_step hstep with
  | denied hm hc => exact (hw.store.housed.claim hc).2.1.subset hh
  | granted hm hc => exact (hw.store.housed.claim hc).2.1.subset hh
  | append ha hadvance =>
    rcases Appending.advance_cases hadvance with ⟨-, _, hr, -⟩ | ⟨-, hactive, -⟩
    · obtain ⟨u, d, rfl, -⟩ :=
        Store.write_cases hr (hw.appends _ (List.mem_of_getElem? ha)).known
      exact hh
    · rw [hactive]
      exact hh
  | spareFailed _ hn =>
    show h ∈ Store.active _
    rw [← Store.active_newSegment hn] at hh
    exact hh
  | spareCreated _ hn =>
    rw [Store.active_newSegment hn]
    exact hh
  | placeSpare =>
    rw [Store.active_placeSpare]
    exact hh
  | @discard j v v' store hv hadvance =>
    obtain ⟨k, rest, htodo, heffect⟩ := Walk.effect_of_advance hadvance
    cases heffect with
    | unlink hstage =>
      -- what a discard is about to take out is spent
      have hne : h ≠ k := by
        rintro rfl
        have hspent := hw.spent v (List.mem_of_getElem? hv) hstage h (by rw [htodo]; rfl)
        exact Bool.false_ne_true (hneeded.symm.trans hspent)
      exact (List.mem_erase_of_ne hne).mpr hh
    | delete =>
      rw [Store.active_deleteFile]
      exact hh
    | flush | spent | needed | keep | stop | next => exact hh
  | sync hy hadvance =>
    obtain ⟨-, hactive, -⟩ := Syncing.advance_cases hadvance
    rw [hactive]
    exact hh
  | reset => cases hreset
  | delete hk =>
    rw [Store.active_deleteFile]
    exact hh
  | refused | spareMissing | spareThere | startDiscard | startSync | retireSpare | keepIdsAbove =>
    exact hh

/-- A discard goes on alone, from where it is. -/
theorem run_of_alone {x y : Walk × Store} (halone : Walk.Alone x y) {w : World} {j : Nat}
    (hwalk : w.walks[j]? = some x.1) (hstore : w.store = x.2) (hids : w.store.ids.next ≠ 0) :
    ∃ w', Run Calm w w' ∧ w'.appends = w.appends ∧ w'.store = y.2 := by
  induction halone generalizing w with
  | refl => exact ⟨w, .refl w, rfl, hstore⟩
  | @step x y z hadvance _ ih =>
    obtain ⟨v, s⟩ := x
    obtain ⟨v', s'⟩ := y
    dsimp only at hwalk hstore hadvance
    subst hstore
    have hstep : w.step (.discard j) = some { w with store := s', walks := w.walks.set j v' } := by
      simp only [World.step, hwalk, Option.bind_some, hadvance, Option.map_some]
    have hids' : s'.ids.next ≠ 0 := by
      rw [Walk.ids_advance hadvance]
      exact hids
    obtain ⟨hj, -⟩ := List.getElem?_eq_some_iff.mp hwalk
    obtain ⟨w', hrun, happends, hend⟩ :=
      ih (w := { w with store := s', walks := w.walks.set j v' })
        (List.getElem?_set_self hj) rfl hids'
    exact ⟨w', (Run.step _ (.refl w) hstep ⟨hids', rfl⟩).trans hrun, happends, hend⟩

/-- A segment that is spent is taken out by the next discard up to the end of the log, whatever is
still to be written in it. -/
theorem taken_of_spent (hw : w.InOrder) (hh : h ∈ w.store.active)
    (hspent : (w.store.segment h).isSpent = true) (p : Partition) :
    ∃ w', Run Calm w w' ∧ w'.appends = w.appends ∧
      w'.store = w.store.discard p w.store.position ∧ h ∉ w'.store.active := by
  have hids : w.store.ids.next ≠ 0 := by
    intro h0
    have hpositive := hw.store.positive
    rw [h0] at hpositive
    exact UInt64.lt_irrefl _ hpositive
  obtain ⟨stage, halone⟩ :=
    Walk.advance_alone p w.store.position w.store.active w.store
  obtain ⟨w', hrun, happends, hstore⟩ := run_of_alone halone (j := w.walks.length)
    (w := { w with walks := w.walks ++
      [{ partition := p, upTo := w.store.position, todo := w.store.active }] })
    (by rw [List.getElem?_concat_length]) rfl hids
  have hstart : Run Calm w { w with walks := w.walks ++
      [{ partition := p, upTo := w.store.position, todo := w.store.active }] } :=
    .step (.startDiscard p w.store.position) (.refl w) rfl ⟨hids, rfl⟩
  refine ⟨w', hstart.trans hrun, happends, hstore, ?_⟩
  rw [hstore]
  exact hw.store.discard_spent hh hspent p

/-! ## Records on their way -/

/-- Whether a step is no reset, and finds no segment spent in which a record is still to be
written. -/
def Shields (w : World) (e : Event) (w' : World) : Prop :=
  Calm w e w' ∧ ∀ a ∈ w.appends, a.stage.isWriting = true →
    (w.store.segment a.claim.handle).isSpent = false

instance (w : World) (e : Event) (w' : World) : Decidable (w.Calm e w') :=
  inferInstanceAs (Decidable (_ ∧ _))

instance (w : World) (e : Event) (w' : World) : Decidable (w.Shields e w') :=
  inferInstanceAs (Decidable (_ ∧ ∀ a ∈ w.appends, _))

/-- A record that is still to be written was so before, or it was claimed just now. -/
theorem writing_of_step (hw : w.InOrder) {e : Event} (hstep : w.step e = some w')
    (ha : a ∈ w'.appends) (hwriting : a.stage.isWriting = true) :
    a ∈ w.appends ∨ a.claim.handle ∈ w'.store.active := by
  cases effect_of_step hstep with
  | @granted m frame c store hm hc =>
    rcases List.mem_append.mp ha with ha | ha
    · exact .inl ha
    · rw [List.mem_singleton.mp ha]
      exact .inr (Store.mem_of_tail? (hw.store.housed.tail?_claim hc))
  | @append i b b' store hb hadvance =>
    rcases mem_set ha with ha | rfl
    · exact .inl ha
    · -- an append that went on has written
      exfalso
      rcases Appending.advance_cases hadvance with ⟨-, r, -, rfl⟩ | ⟨-, -, -, -, -, hwritten, -⟩
      · cases r
        · cases hwriting
        · dsimp only at hwriting
          split at hwriting <;> cases hwriting
      · exact Bool.false_ne_true (hwritten.symm.trans hwriting)
  | refused | denied | spareMissing | spareThere | spareFailed | spareCreated | placeSpare
  | startDiscard | discard | startSync | sync | retireSpare | reset | delete | keepIdsAbove =>
    exact .inl ha

theorem writing_run (hrun : Run Shields w w') (hw : w.InOrder)
    (hactive : ∀ a ∈ w.appends, a.stage.isWriting = true → a.claim.handle ∈ w.store.active) :
    w'.InOrder ∧
      ∀ a ∈ w'.appends, a.stage.isWriting = true → a.claim.handle ∈ w'.store.active := by
  induction hrun with
  | refl => exact ⟨hw, hactive⟩
  | step e _ hstep hshields ih =>
    obtain ⟨⟨hids, hreset⟩, hneeded⟩ := hshields
    refine ⟨(ih.1.step hstep hids).1, fun a ha hwriting => ?_⟩
    rcases writing_of_step ih.1 hstep ha hwriting with hold | hnew
    · exact active_step ih.1 hstep hreset (ih.2 a hold hwriting) (hneeded a hold hwriting)
    · exact hnew

/-- **A record on its way keeps its segment as long as that is not spent.** Take any run of a store
that was just opened, without a reset, in which no step finds a segment sealed and without marks
while a record is still to be written in it. Then the segment of every record that is still to be
written is active, and its file is where it was created. If by then such a segment is spent, the
next discard up to the end of the log takes it out, before the record is written. -/
theorem writing_stays {settings : Settings} {now : UInt64} {disk : Disk} {monitor : Monitor}
    {s : Store} (hopen : Store.onDirectory settings now disk monitor = .ok s)
    (hdisk : disk.WellFormed) {w : World} (hrun : Run Shields { store := s } w) {a : Appending}
    (ha : a ∈ w.appends) (hwriting : a.stage.isWriting = true) :
    a.claim.handle ∈ w.store.active ∧ w.store.Found a.claim.handle ∧
      ((w.store.segment a.claim.handle).isSpent = true → ∀ p, ∃ w', Run Calm w w' ∧
        w'.appends = w.appends ∧ w'.store = w.store.discard p w.store.position ∧
        a.claim.handle ∉ w'.store.active) := by
  obtain ⟨hw, hall⟩ := writing_run hrun (inOrder_onDirectory hopen hdisk) fun _ hb => (nomatch hb)
  have hactive := hall a ha hwriting
  exact ⟨hactive, hw.store.found_active hactive, fun hspent p => taken_of_spent hw hactive hspent p⟩

/-- The log goes on behind a record that is still to be written, and a discard finds the mark of
another partition beside its own. -/
theorem writing_stays_marked :
    ∃ w a, World.follow Shields
        [.claim (.raw [⟨1⟩, ⟨2⟩] [7, 8, 9]), .claim (.raw [⟨1⟩] [4, 5, 6]),
          .claim (.raw [⟨3⟩] [1, 2, 3]), .append 2, .startDiscard ⟨1⟩ ⟨6, 15⟩, .discard 0,
          .discard 0, .discard 0]
        { store := .blank { directory := ⟨[Path.dot]⟩, segmentSize := 30 } 5 } = some w ∧
      a ∈ w.appends ∧ a.stage.isWriting = true ∧ a.claim.handle ∈ w.store.active ∧
      w.store.Found a.claim.handle := by
  have h : (World.follow Shields
      [.claim (.raw [⟨1⟩, ⟨2⟩] [7, 8, 9]), .claim (.raw [⟨1⟩] [4, 5, 6]),
        .claim (.raw [⟨3⟩] [1, 2, 3]), .append 2, .startDiscard ⟨1⟩ ⟨6, 15⟩, .discard 0,
        .discard 0, .discard 0]
      { store := .blank { directory := ⟨[Path.dot]⟩, segmentSize := 30 } 5 }).isSome = true := by
    decide +kernel
  have hlen : 0 < (Option.get _ h).appends.length := by decide +kernel +revert
  have hwriting : ((Option.get _ h).appends.get ⟨0, hlen⟩).stage.isWriting = true := by
    decide +kernel +revert
  have hmem := List.get_mem (Option.get _ h).appends ⟨0, hlen⟩
  obtain ⟨hactive, hfound, -⟩ := writing_stays (Store.onDirectory_blank rfl 5 {})
    (Disk.wellFormed_empty {}) (Run.of_follow (Option.some_get h).symm) hmem hwriting
  exact ⟨_, _, (Option.some_get h).symm, hmem, hwriting, hactive, hfound⟩

/-- The end of the log already lies behind two records that are claimed and not yet written. When
the log has gone on in the next segment, a discard up to there forgets both, and deletes their
segment; the first of them is written after that, and acknowledged. -/
theorem taken_before_written :
    ∃ w₁ w₂ w₃ : World, World.follow HasIds
        [.claim (.raw [⟨1⟩] [7, 8, 9]), .claim (.raw [⟨1⟩] [4, 5, 6])]
        { store := .blank { directory := ⟨[Path.dot]⟩, segmentSize := 30 } 5 } = some w₁ ∧
      w₁.follow HasIds [.claim (.raw [⟨2⟩] [1, 2, 3]), .startDiscard ⟨1⟩ w₁.store.position,
        .discard 0, .discard 0, .discard 0, .discard 0] = some w₂ ∧
      (∃ a ∈ w₂.appends, a.stage.isWriting = true ∧ a.claim.handle ∉ w₂.store.active ∧
        w₂.store.disk.find (w₂.store.segment a.claim.handle).path = .error .notFound) ∧
      w₂.follow HasIds [.append 0] = some w₃ ∧
      ∃ a ∈ w₃.appends, a.stage = .returned true (.ok ⟨5, 0⟩) ∧
        w₃.store.disk.find (w₃.store.segment a.claim.handle).path = .error .notFound := by
  have h₁ : (World.follow HasIds
      [.claim (.raw [⟨1⟩] [7, 8, 9]), .claim (.raw [⟨1⟩] [4, 5, 6])]
      { store := .blank { directory := ⟨[Path.dot]⟩, segmentSize := 30 } 5 }).isSome = true := by
    decide +kernel
  have h₂ : ((Option.get _ h₁).follow HasIds
      [.claim (.raw [⟨2⟩] [1, 2, 3]), .startDiscard ⟨1⟩ (Option.get _ h₁).store.position,
        .discard 0, .discard 0, .discard 0, .discard 0]).isSome = true := by
    decide +kernel +revert
  have h₃ : ((Option.get _ h₂).follow HasIds [.append 0]).isSome = true := by
    decide +kernel +revert
  refine ⟨_, _, _, (Option.some_get h₁).symm, (Option.some_get h₂).symm, ?_,
    (Option.some_get h₃).symm, ?_⟩
  · clear h₃
    decide +kernel +revert
  · decide +kernel +revert

end World

end SegmentLog
