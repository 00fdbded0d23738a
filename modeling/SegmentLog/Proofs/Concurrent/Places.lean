import SegmentLog.Proofs.Concurrent.Order

/-!
# Where segments stand among many callers

A number is taken, and the file of a new spare made, at moments when others run: by the time at
which the segment is to be put in its place, appends may have rolled over past it, and the
segments before it may be gone. What a store does at each place where a segment is put keeps the
segments in the order of their numbers nevertheless, and no caller comes to know of a spare that
is of no use.

* `Store.Sound.arranged` — a store in order has its segments where they belong;
* `World.stays_arranged` — they stay there in every run.
-/

namespace SegmentLog

namespace Store

variable {s : Store} {loose : List Handle}

/-- Whether the segments of a store are where they belong. -/
structure Arranged (s : Store) : Prop where
  /-- The active segments follow one another by their numbers. -/
  ascending : (s.activeSegments.map Segment.id).Pairwise (· < ·)
  /-- Only the last of them may still take something in. -/
  sealed : ∀ g ∈ s.activeSegments.dropLast, g.sealed = true
  /-- The spare is as it was made, and follows them. -/
  spare : ∀ k ∈ s.spare, (s.segment k).IsBlank ∧ (s.segment k).sealed = false ∧
    s.tailId < (s.segment k).id
  /-- No number is handed out that one of them has. -/
  below : ∀ h ∈ s.active ++ s.spare.toList, (s.segment h).id < s.ids.next

theorem Sound.ascending_ids (hs : s.Sound loose) :
    (s.activeSegments.map Segment.id).Pairwise (· < ·) := by
  unfold activeSegments
  rw [List.map_map, List.pairwise_map]
  exact hs.ascending_active.imp_of_mem fun hg hh hlt =>
    hs.ascending _ _ hlt (hs.known_active hh)

theorem Sound.sealed_dropLast (hs : s.Sound loose) {g : Segment}
    (hg : g ∈ s.activeSegments.dropLast) : g.sealed = true := by
  unfold activeSegments at hg
  rw [← List.map_dropLast] at hg
  obtain ⟨h, hh, rfl⟩ := List.mem_map.mp hg
  have hne : s.active ≠ [] := by
    intro hnil
    rw [hnil] at hh
    cases hh
  -- an active segment comes behind this one, the last one of all
  have hsplit := List.dropLast_append_getLast hne
  have horder := hs.ascending_active
  rw [← hsplit] at horder
  have hlt := (List.pairwise_append.mp horder).2.2 h hh _ (List.mem_singleton_self _)
  exact hs.sealed h (List.dropLast_subset _ hh) _ (List.getLast_mem hne) hlt

/-- A store in order has its segments where they belong. -/
theorem Sound.arranged (hs : s.Sound loose) : s.Arranged where
  ascending := hs.ascending_ids
  sealed _ hg := hs.sealed_dropLast hg
  spare k hk := by
    obtain ⟨hblank, hunsealed⟩ := hs.fresh k (List.mem_append_left _ (Option.mem_toList.mpr hk))
    exact ⟨hblank, hunsealed, hs.tailId_lt_spare hk⟩
  below h hh := by
    refine hs.below h (hs.known h ?_)
    rw [← List.append_assoc]
    exact List.mem_append_left _ hh

end Store

namespace World

/-- **The segments of a log stay where they belong.** However the steps of the callers of a store
that was just opened interleave, the numbers of its active segments ascend, all of them but the
last are sealed, the spare is as it was made and follows the last of them, and every number is
below the next one. So it is always the spare itself that an append takes, if there is one, and
no spare is ever removed in its stead for coming too late. -/
theorem stays_arranged {settings : Settings} {now : UInt64} {disk : Disk} {monitor : Monitor}
    {s : Store} (hopen : Store.onDirectory settings now disk monitor = .ok s)
    (hdisk : disk.WellFormed) {w : World} (hrun : Run HasIds { store := s } w) :
    w.store.Arranged ∧
      w.store.withdrawSpare = (w.store.spare, { w.store with spare := none }) := by
  have hw : w.InOrder := (inOrder_onDirectory hopen hdisk).run (fun _ _ _ h => h) hrun
  exact ⟨hw.store.arranged, Store.withdrawSpare_eq hw.store⟩

/-- An append overtakes the first spare, which is removed when its place is sought; the second
one is taken in time, and the third finds its place while a discard deletes the segment that the
second one has followed. -/
theorem stays_arranged_overtaken :
    ∃ w : World,
      follow HasIds
        [.lookForSpare, .createSpare, .claim (.raw [⟨1⟩] [7, 8, 9]), .append 0, .placeSpare 0,
          .lookForSpare, .createSpare, .placeSpare 2, .claim (.raw [⟨1⟩] (.replicate 20 0)),
          .claim (.raw [⟨2⟩] (.replicate 20 0)), .startDiscard ⟨1⟩ ⟨6, 15⟩, .discard 0,
          .discard 0, .lookForSpare, .createSpare, .discard 0, .placeSpare 3]
        { store := .blank { directory := ⟨[Path.dot]⟩, segmentSize := 64 } 5 } = some w ∧
      w.store.Arranged ∧
      w.store.withdrawSpare = (w.store.spare, { w.store with spare := none }) := by
  have h : (follow HasIds
        [.lookForSpare, .createSpare, .claim (.raw [⟨1⟩] [7, 8, 9]), .append 0, .placeSpare 0,
          .lookForSpare, .createSpare, .placeSpare 2, .claim (.raw [⟨1⟩] (.replicate 20 0)),
          .claim (.raw [⟨2⟩] (.replicate 20 0)), .startDiscard ⟨1⟩ ⟨6, 15⟩, .discard 0,
          .discard 0, .lookForSpare, .createSpare, .discard 0, .placeSpare 3]
        { store := .blank { directory := ⟨[Path.dot]⟩, segmentSize := 64 } 5 }).isSome = true := by
    decide +kernel
  refine ⟨Option.get _ h, (Option.some_get h).symm, ?_⟩
  exact stays_arranged (Store.onDirectory_blank rfl 5 {}) (Disk.wellFormed_empty {})
    (Run.of_follow (Option.some_get h).symm)

end World

end SegmentLog
