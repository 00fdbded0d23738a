import SegmentLog.Proofs.Store.Shelved

/-!
# Segments that go, with their records

A segment that goes takes its records away, and those of the other segments stay as they are. A
segment in which nothing was claimed takes no record away, so that spares come and go without a
trace; and a sync changes no record at all.

* `Shelved.discard` — just the records in the segments that stay active are kept;
* `Shelved.wipe` — all segments go;
* `Shelved.sync`, `Shelved.finish`, `Shelved.stockSpare` — what changes no records.
-/

namespace SegmentLog

namespace Store

/-- The numbers of the active segments. -/
def activeIds (s : Store) : List SegmentId := s.activeSegments.map (·.id)

variable {s s' : Store} {c : Settings} {loose : List Handle} {left : List Volume}
  {past held : List (Position × Bytes)}

theorem activeIds_eq (s : Store) : s.activeIds = (s.active.map s.volume).map (·.id) := by
  simp only [activeIds, activeSegments, List.map_map]
  rfl

/-- All records that a store holds are in its active segments. -/
theorem Shelved.filter_active (hs : s.Shelved c loose left past held) :
    (held.filter fun r => r.1.segment ∈ s.activeIds) = held := by
  refine List.filter_eq_self.mpr fun r hr => ?_
  rw [← hs.held_active] at hr
  rw [decide_eq_true_eq, activeIds_eq]
  exact Disk.segment_mem_of_mem_stored hr

/-! ## Segments without records -/

/-- The removal of a segment in which nothing was claimed changes no records. -/
theorem Shelved.removeFresh (hs : s.Shelved c loose left past held) {xs : List Handle} {k : Handle}
    (hown : s.own loose = xs ++ [k]) (hk : k ∈ s.spare.toList ++ loose)
    {r : Except DiskError Unit} {d : Disk} (hr : s.disk.remove (s.segment k).path = (r, d))
    {spare : Option Handle} (hsound : Sound { s with spare, disk := d } [])
    (hrest : own { s with spare, disk := d } [] = xs) :
    r = .ok () ∧ Shelved { s with spare, disk := d } c [] left past held := by
  have hempty := hs.recordsOf_fresh hk
  have hheld := hs.held
  rw [hown, List.map_append, Disk.stored_append, List.map_singleton, Disk.stored_cons, hempty]
    at hheld
  obtain ⟨hok, hs'⟩ := hs.takeAway hown hr hsound
    (hrest.trans (List.append_nil xs).symm)
  rw [List.append_nil] at hs'
  simp only [Disk.stored, List.flatMap_nil, List.append_nil] at hheld hs'
  rw [hheld] at hs'
  exact ⟨hok, hs'⟩

/-- A new segment becomes the spare or is removed again; in both cases no records change. -/
theorem Shelved.placeSpare {k : Handle} (hs : s.Shelved c [k] left past held) :
    (s.placeSpare k).Shelved c [] left past held := by
  have hsound := hs.toSound.placeSpare
  unfold Store.placeSpare at hsound ⊢
  split
  · rename_i hplace
    rw [if_pos hplace] at hsound
    refine hs.evolves hsound (.of_eq rfl rfl rfl) ?_ (UInt64.le_refl _) (.refl _)
    simp [own, Option.isNone_iff_eq_none.mp hplace.1]
  · rename_i hplace
    rw [if_neg hplace] at hsound
    cases hd : s.deleteFile k with
    | mk r s₁ =>
      obtain ⟨d, rfl, hr⟩ := deleteFile_cases hd
      rw [hd] at hsound
      exact (hs.removeFresh (own_cons s k) (by simp) hr hsound rfl).2

/-- A store that stocks its spare holds the same records. -/
theorem Shelved.stockSpare (hs : s.Shelved c [] left past held) {r : Except LogError Unit}
    (h : s.stockSpare = (r, s')) (hids : s'.ids.next ≠ 0) : s'.Shelved c [] left past held := by
  unfold Store.stockSpare at h
  split at h
  · cases hn : s.newSegment with
    | mk made s₁ =>
      rw [hn] at h
      cases made with
      | error e =>
        cases h
        obtain ⟨-, -, ⟨_, -, hs₁⟩ | ⟨_, hr, -⟩⟩ := hs.newSegment hn hids
        · exact hs₁.report (.disk e)
        · cases hr
      | ok k =>
        cases h
        have hids₁ : s₁.ids.next ≠ 0 := by
          rw [← ids_placeSpare s₁ k]
          exact hids
        obtain ⟨-, -, ⟨_, hr, -⟩ | ⟨_, hr, hs₁, -⟩⟩ := hs.newSegment hn hids₁
        · cases hr
        · cases hr
          exact hs₁.placeSpare
  · cases h
    exact hs

/-! ## Syncs -/

theorem Shelved.send (hs : s.Shelved c loose left past held) (chore : Chore) :
    (s.send chore).Shelved c loose left past held := by
  obtain ⟨mail, hsend⟩ := send_eq s chore
  have hsound := hs.toSound.send chore
  rw [hsend] at hsound ⊢
  exact hs.evolves hsound (.of_eq rfl rfl rfl) rfl (UInt64.le_refl _) (.refl _)

theorem Shelved.syncEach (force : Bool) {handles : List Handle}
    (hs : s.Shelved c loose left past held) (hactive : ∀ k ∈ handles, k ∈ s.active)
    {r : Except LogError Unit} (h : syncEach force handles s = (r, s')) :
    s'.Shelved c loose left past held := by
  induction handles generalizing s with
  | nil =>
    cases h
    exact hs
  | cons k rest ih =>
    obtain ⟨hk, hrest⟩ := List.forall_mem_cons.mp hactive
    unfold Store.syncEach at h
    cases hr : s.syncSegment k force with
    | mk result s₁ =>
      obtain ⟨-, hs₁, hsame, -⟩ := hs.syncSegment hk hr
      rw [← hsame] at hk hrest
      rw [hr] at h
      cases result with
      | ok => exact ih hs₁ hrest h
      | error cause =>
        dsimp only at h
        cases force with
        | true =>
          cases h
          exact hs₁.giveUp hk cause
        | false =>
          cases h
          exact hs₁.report _

/-- A sync changes no records. -/
theorem Shelved.sync (hs : s.Shelved c loose left past held) {force : Bool}
    {r : Except LogError Unit} (h : s.sync force = (r, s')) :
    s'.Shelved c loose left past held := by
  unfold Store.sync at h
  split at h
  · cases h
    exact hs.send .sync
  · exact hs.syncEach force (fun _ hk => hk) h

/-- The end of the use of a store changes no records. -/
theorem Shelved.finish (hs : s.Shelved c [] left past held) {r : Except LogError Unit}
    (h : s.finish = (r, s')) : s'.Shelved c [] left past held := by
  obtain ⟨synced, s₁, hsync, hcase⟩ := finish_cases h
  have hs₁ := hs.syncEach true (fun _ hk => hk) hsync
  rcases hcase with ⟨e, -, -, rfl⟩ | ⟨-, ⟨-, -, rfl⟩ | ⟨k, removed, hspare, hd, -⟩⟩
  · exact hs₁
  · exact hs₁
  · have hk : k ∈ s₁.spare.toList := by rw [hspare]; exact List.mem_singleton_self k
    have hout : k ∉ s₁.active ++ [] := by
      rw [List.append_nil]
      exact fun hm => hs₁.active_not_fresh hm (List.mem_append_left _ hk)
    have htaken : Sound { s₁ with spare := none } [] :=
      hs₁.toSound.withdraw (List.Sublist.refl _) (List.nil_sublist _) (List.Sublist.refl _)
    have hsound := htaken.deleteFile (k := k) (hs₁.known_own (by simp [own, hspare])) hout
    obtain ⟨d, rfl, hr⟩ := deleteFile_cases hd
    rw [hd] at hsound
    have hown : s₁.own [] = s₁.active ++ [k] := by simp [own, hspare]
    obtain ⟨rfl, hs₂⟩ := hs₁.removeFresh hown (List.mem_append_left _ hk) hr hsound
      (List.append_nil _)
    exact hs₂

/-! ## Discards -/

/-- Whether a store holds just those of some records that are in its active segments, all of which
are active in another store as well. -/
structure Reduces (s s' : Store) (c : Settings) (left : List Volume)
    (past held : List (Position × Bytes)) : Prop where
  shelved : s'.Shelved c [] left past (held.filter fun r => r.1.segment ∈ s'.activeIds)
  subset : ∀ id ∈ s'.activeIds, id ∈ s.activeIds

theorem Shelved.reduces (hs : s.Shelved c [] left past held) : s.Reduces s c left past held :=
  ⟨by rw [hs.filter_active]; exact hs, fun _ h => h⟩

theorem Reduces.trans {s'' : Store} (h : s.Reduces s' c left past held)
    (h' : s'.Reduces s'' c left past (held.filter fun r => r.1.segment ∈ s'.activeIds)) :
    s.Reduces s'' c left past held := by
  refine ⟨?_, fun id hid => h.subset id (h'.subset id hid)⟩
  have hfilter : ((held.filter fun r => r.1.segment ∈ s'.activeIds).filter
      fun r => r.1.segment ∈ s''.activeIds) = held.filter fun r => r.1.segment ∈ s''.activeIds := by
    rw [List.filter_filter]
    refine List.filter_congr fun r _ => ?_
    simp only [Bool.and_eq_left_iff_imp, decide_eq_true_eq]
    exact h'.subset _
  rw [← hfilter]
  exact h'.shelved

/-- A segment that is deleted takes its records away. -/
theorem Shelved.deleteSegment (hs : s.Shelved c [] left past held) (k : Handle) :
    s.Reduces (s.deleteSegment k) c left past held := by
  unfold Store.deleteSegment
  rcases unlink_cases s k with ⟨hunlink, hk, -⟩ | ⟨hunlink, -⟩
  · rw [hunlink]
    obtain ⟨xs, ys, hactive⟩ := List.append_of_mem hk
    have hnodup : s.active.Nodup := hs.ascending_active.imp Nat.ne_of_lt
    have herase : s.active.erase k = xs ++ ys := by
      rw [hactive] at hnodup ⊢
      have hxs : k ∉ xs := fun hm =>
        (List.nodup_append.mp hnodup).2.2 k hm k List.mem_cons_self rfl
      rw [List.erase_append_right _ hxs, List.erase_cons_head]
    have hout : k ∉ s.active.erase k ++ (s.spare.toList ++ []) := by
      rw [List.mem_append]
      exact fun hm => hm.elim hnodup.not_mem_erase (hs.active_not_fresh hk)
    have hsound := (hs.toSound.erase k).deleteFile (k := k) (hs.known_active hk) hout
    dsimp only
    cases hd : Store.deleteFile { s with active := s.active.erase k } k with
    | mk r s₁ =>
      obtain ⟨d, rfl, hr⟩ := deleteFile_cases hd
      rw [hd] at hsound
      have hown : s.own [] = xs ++ k :: (ys ++ (s.spare.toList ++ [])) := by simp [own, hactive]
      obtain ⟨-, hs'⟩ := hs.takeAway hown hr hsound (by simp [own, herase])
      have hids : activeIds { s with active := s.active.erase k, disk := d } =
          ((s.active.erase k).map s.volume).map (·.id) := activeIds_eq _
      have hsub : ((s.active.erase k).map s.volume).Sublist (s.active.map s.volume) :=
        List.erase_sublist.map _
      have hdistinct := hs.distinct_own
      rw [own, List.map_append, List.map_append] at hdistinct
      -- the records that are left are those of the segments that stay active
      rw [← List.append_assoc, ← herase, List.map_append, Disk.stored_append, hs.stored_fresh,
        List.append_nil, Disk.stored_sublist _ hsub (List.nodup_append.mp hdistinct).1,
        hs.held_active, ← hids] at hs'
      refine ⟨hs', fun id hid => ?_⟩
      rw [hids] at hid
      rw [activeIds_eq]
      exact (hsub.map _).subset hid
  · rw [hunlink]
    exact hs.reduces

/-- A partition that was flushed takes the records of the segments away that are deleted for it. -/
theorem Shelved.discardOne (hs : s.Shelved c [] left past held) (p : Partition) (upTo : Position)
    (k : Handle) : s.Reduces (s.discardOne p upTo k) c left past held := by
  have hnoted := hs.noteFlush k p upTo
  have hids : (s.noteFlush k p upTo).activeIds = s.activeIds := by
    simp only [activeIds, activeSegments, List.map_map]
    refine List.map_congr_left fun j _ => ?_
    obtain ⟨marks, hflush⟩ := s.segment_noteFlush_marks k j p upTo
    simp only [Function.comp, hflush]
    rfl
  have hsame : s.Reduces (s.noteFlush k p upTo) c left past held :=
    ⟨by rw [hnoted.filter_active]; exact hnoted, fun id hid => hids ▸ hid⟩
  unfold Store.discardOne
  dsimp only
  split
  · refine hsame.trans ?_
    rw [hnoted.filter_active]
    exact hnoted.deleteSegment k
  · exact hsame

theorem Shelved.discardEach (p : Partition) (upTo : Position) (handles : List Handle)
    (hs : s.Shelved c [] left past held) :
    s.Reduces (discardEach p upTo handles s) c left past held := by
  induction handles generalizing s held with
  | nil => exact hs.reduces
  | cons k rest ih =>
    have hone := hs.discardOne p upTo k
    rw [discardEach_cons]
    split
    · exact hone
    · exact hone.trans (ih hone.shelved)

/-- **A discard takes the records of whole segments away**: just those in the segments that stay
active are kept. -/
theorem Shelved.discard (hs : s.Shelved c [] left past held) (p : Partition) (upTo : Position) :
    (s.discard p upTo).Shelved c [] left past
      (held.filter fun r => r.1.segment ∈ (s.discard p upTo).activeIds) :=
  (hs.discardEach p upTo s.active).shelved

/-! ## Resets -/

/-- Segments that are in no place any more, whose files go one after the other. -/
theorem Shelved.deleteEach {handles : List Handle} (hs : s.Shelved c [] left past held)
    (hown : s.active ++ s.spare.toList = handles) {r : Except LogError Unit}
    (h : deleteEach handles { s with active := [], spare := none } = (r, s')) :
    r = .ok () ∧ s'.Shelved c [] left past [] := by
  induction handles generalizing s held with
  | nil =>
    cases h
    obtain ⟨hactive, hspare⟩ := List.append_eq_nil_iff.mp hown
    have hsame : own { s with active := [], spare := none } [] = s.own [] := by
      simp [own, hactive, hspare]
    have hheld := hs.held
    rw [← hsame] at hheld
    obtain rfl : [] = held := hheld
    have hsound : Sound { s with active := [], spare := none } [] :=
      hs.toSound.withdraw (List.nil_sublist _) (List.nil_sublist _) (List.Sublist.refl _)
    exact ⟨rfl, hs.evolves hsound (.of_eq rfl rfl rfl) hsame (UInt64.le_refl _) (.refl _)⟩
  | cons k rest ih =>
    -- the segment at the front is active, or it is the spare and the only one
    obtain ⟨active, spare, hactive, hspare, hrest⟩ :
        ∃ (active : List Handle) (spare : Option Handle), active.Sublist s.active ∧
          spare.toList.Sublist s.spare.toList ∧ active ++ spare.toList = rest := by
      cases hs' : s.active with
      | nil =>
        rw [hs'] at hown
        cases hk : s.spare with
        | none => rw [hk] at hown; cases hown
        | some j =>
          rw [hk] at hown
          cases hown
          exact ⟨[], none, List.Sublist.refl _, List.nil_sublist _, rfl⟩
      | cons j active =>
        rw [hs'] at hown
        cases hown
        exact ⟨active, s.spare, List.sublist_cons_self _ _, List.Sublist.refl _, rfl⟩
    have hordered := hs.order
    rw [hown] at hordered
    have hout : k ∉ active ++ (spare.toList ++ []) := by
      rw [List.append_nil, hrest]
      exact fun hm => Nat.lt_irrefl k ((List.pairwise_cons.mp hordered).1 k hm)
    have hk : k < s.table.size := hs.known_own (by simp [own, hown])
    have htaken : Sound { s with active, spare } [] :=
      hs.toSound.withdraw hactive hspare (List.Sublist.refl _)
    have hsound := htaken.deleteFile (k := k) hk hout
    unfold Store.deleteEach at h
    cases hd : Store.deleteFile { s with active, spare } k with
    | mk deleted s₁ =>
      obtain ⟨d, rfl, hr⟩ := deleteFile_cases hd
      rw [hd] at hsound
      have hfirst : s.own [] = [] ++ k :: rest := by simp [own, hown]
      obtain ⟨rfl, hs₁⟩ := hs.takeAway hfirst hr hsound (by simp [own, hrest])
      have hdeleted : Store.deleteFile { s with active := [], spare := none } k =
          (.ok (), { s with active := [], spare := none, disk := d }) := deleteFile_eq hr
      rw [hdeleted] at h
      exact ih hs₁ hrest h

/-- A reset takes all records of the store away, and those that earlier stores have left stay. -/
theorem Shelved.wipe (hs : s.Shelved c [] left past held) {r : Except LogError Unit}
    (h : s.wipe = (r, s')) : r = .ok () ∧ s'.Shelved c [] left past [] :=
  hs.deleteEach rfl h

end Store

end SegmentLog
