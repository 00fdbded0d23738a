import SegmentLog.Proofs.Store.Ready
import SegmentLog.Proofs.Store.Receipts

/-!
# What leaves stable storage alone

Most of what a store does brings nothing to stable storage, and leaves nothing to be brought there:
segments are created, change places, are sealed and removed, and none of this touches what their
files held at the last sync, or the mark that says whether there is more in them.

* `Rests` — what all of this has in common;
* `rests_newSegment`, `rests_deleteFile`, `Housed.rests_segmentFor` — the parts of a request;
* `rests_discardEach`, `Housed.rests_stockSpare`, `rests_wipe` — whole requests.
-/

namespace SegmentLog.Store

variable {s s' s'' : Store}

/-- Whether nothing was brought to stable storage or has to be brought there: segments keep what
they have there and remember what they remembered, and new ones begin with nothing. -/
structure Rests (s s' : Store) : Prop where
  size : s.table.size ≤ s'.table.size
  file : ∀ k < s.table.size, (s'.segment k).file = (s.segment k).file
  durable : ∀ k < s.table.size,
    s'.disk.durable (s.segment k).file = s.disk.durable (s.segment k).file
  unsynced : ∀ k < s.table.size, (s'.segment k).unsynced = (s.segment k).unsynced
  new : ∀ k, s.table.size ≤ k → k < s'.table.size →
    (s'.segment k).unsynced = false ∧ s'.disk.durable (s'.segment k).file = []

theorem Rests.trans (h : s.Rests s') (h' : s'.Rests s'') : s.Rests s'' where
  size := Nat.le_trans h.size h'.size
  file k hk := (h'.file k (Nat.lt_of_lt_of_le hk h.size)).trans (h.file k hk)
  durable k hk := by
    rw [← h.durable k hk, ← h.file k hk]
    exact h'.durable k (Nat.lt_of_lt_of_le hk h.size)
  unsynced k hk := (h'.unsynced k (Nat.lt_of_lt_of_le hk h.size)).trans (h.unsynced k hk)
  new k hle hlt := by
    by_cases hk : k < s'.table.size
    · obtain ⟨hunsynced, hdurable⟩ := h.new k hle hk
      rw [h'.unsynced k hk, h'.file k hk, h'.durable k hk]
      exact ⟨hunsynced, hdurable⟩
    · exact h'.new k (Nat.le_of_not_lt hk) hlt

/-- A change that leaves the table and the files alone. -/
theorem rests_of_eq (htable : s'.table = s.table) (hfiles : s'.disk.files = s.disk.files) :
    s.Rests s' where
  size := Nat.le_of_eq (by rw [htable])
  file k _ := by rw [segment, segment, htable]
  durable k _ := Disk.durable_of_files hfiles _
  unsynced k _ := by rw [segment, segment, htable]
  new k hle hlt := by rw [htable] at hlt; omega

theorem rests_modify {k : Handle} {f : Segment → Segment}
    (hfile : (f (s.segment k)).file = (s.segment k).file)
    (hunsynced : (f (s.segment k)).unsynced = (s.segment k).unsynced) : s.Rests (s.modify k f) where
  size := Nat.le_of_eq (size_modify s k f).symm
  file := modify_related (P := fun g g' => g'.file = g.file) (fun _ => rfl) hfile
  durable j _ := rfl
  unsynced := modify_related (P := fun g g' => g'.unsynced = g.unsynced) (fun _ => rfl) hunsynced
  new j hle hlt := by rw [size_modify] at hlt; omega

theorem rests_deleteFile (s : Store) (k : Handle) : s.Rests (s.deleteFile k).2 := by
  cases hd : s.deleteFile k with
  | mk r s' =>
    obtain ⟨d, rfl, hr⟩ := deleteFile_cases hd
    exact rests_of_eq rfl (Disk.files_remove hr)

theorem rests_newSegment (hs : s.Filed) {r : Except DiskError Handle}
    (h : s.newSegment = (r, s')) : s.Rests s' := by
  obtain ⟨d, -, ⟨e, rfl, rfl, -, hfiles⟩ | ⟨g, q, n, rfl, rfl, hg, -, -, hattached⟩⟩ :=
    newSegment_cases h
  · exact rests_of_eq rfl hfiles
  have hpush := @segment_push s { s with ids := s.ids.take.2, disk := d, table := s.table.push g }
    g rfl
  constructor
  case size =>
    rw [Array.size_push]
    exact Nat.le_succ _
  case file =>
    intro k hk
    rw [hpush, if_neg (Nat.ne_of_lt hk)]
  case durable =>
    intro k hk
    show d.durable _ = _
    rw [hattached.durable, if_neg (Nat.ne_of_lt (hs.files k hk))]
  case unsynced =>
    intro k hk
    rw [hpush, if_neg (Nat.ne_of_lt hk)]
  case new =>
    intro k hle hlt
    rw [Array.size_push] at hlt
    have hk : k = s.table.size := by omega
    have hfile : g.file = s.disk.files.size := by rw [hg]
    rw [hpush, if_pos hk, hfile, hattached.durable, if_pos rfl, hg]
    exact ⟨rfl, rfl⟩

theorem rests_activate (s : Store) (k : Handle) : s.Rests (s.activate k) := by
  obtain ⟨s₁, mail, he, h⟩ := activate_eq s k
  have hfirst : s.Rests s₁ := by
    rcases h with ⟨-, rfl⟩ | ⟨t, -, rfl⟩
    · exact rests_of_eq rfl rfl
    · exact rests_modify rfl rfl
  rw [he]
  exact hfirst.trans (rests_of_eq rfl rfl)

theorem rests_withdrawSpare {r : Option Handle} (h : s.withdrawSpare = (r, s')) : s.Rests s' := by
  have hout : s.Rests { s with spare := none } := rests_of_eq rfl rfl
  rcases withdrawSpare_cases h with ⟨-, -, rfl⟩ | ⟨k, -, ⟨-, rfl⟩ | ⟨-, rfl⟩⟩
  · exact rests_of_eq rfl rfl
  · exact hout
  · exact hout.trans (rests_deleteFile _ k)

theorem Housed.rests_segmentFor (hs : s.Housed []) {length : Nat} {r : Except LogError Handle}
    (h : s.segmentFor length = (r, s')) : s.Rests s' := by
  rcases segmentFor_cases h with ⟨k, -, -, -, rfl⟩ | hroll
  · exact rests_of_eq rfl rfl
  obtain ⟨spare, s₁, hw, hcase⟩ := rollOver_cases hroll
  have hfirst := rests_withdrawSpare hw
  obtain ⟨-, -, hs₁⟩ := hs.withdrawSpare hw
  rcases hcase with ⟨k, -, -, rfl⟩ | ⟨-, made, s₂, hn, hmade⟩
  · exact hfirst.trans (rests_activate s₁ k)
  have hfiled : s₁.Filed := by
    obtain ⟨-, hs₁⟩ | ⟨_, -, hs₁⟩ := hs₁ <;> exact hs₁.toFiled
  have hsecond := hfirst.trans (rests_newSegment hfiled hn)
  rcases hmade with ⟨e, -, -, rfl⟩ | ⟨k, -, -, rfl⟩
  · exact hsecond.trans (rests_of_eq rfl rfl)
  · exact hsecond.trans (rests_activate s₂ k)

theorem rests_noteFlush (s : Store) (k : Handle) (p : Partition) (upTo : Position) :
    s.Rests (s.noteFlush k p upTo) := by
  obtain ⟨marks, hflush, -⟩ := (s.segment k).noteFlush_eq p upTo
  exact rests_modify (f := fun g => g.noteFlush p upTo) (by rw [hflush]) (by rw [hflush])

theorem rests_discardOne (s : Store) (p : Partition) (upTo : Position) (k : Handle) :
    s.Rests (s.discardOne p upTo k) := by
  have hflush := rests_noteFlush s k p upTo
  unfold Store.discardOne Store.deleteSegment
  dsimp only
  split
  · rcases unlink_cases (s.noteFlush k p upTo) k with ⟨hu, -⟩ | ⟨hu, -⟩ <;> rw [hu]
    · have hout : (s.noteFlush k p upTo).Rests
          { s.noteFlush k p upTo with active := (s.noteFlush k p upTo).active.erase k } :=
        rests_of_eq rfl rfl
      exact (hflush.trans hout).trans (rests_deleteFile _ k)
    · exact hflush
  · exact hflush

theorem rests_discardEach (p : Partition) (upTo : Position) (todo : List Handle) (s : Store) :
    s.Rests (discardEach p upTo todo s) := by
  induction todo generalizing s with
  | nil => exact rests_of_eq rfl rfl
  | cons k rest ih =>
    rw [discardEach_cons]
    split
    · exact rests_discardOne s p upTo k
    · exact (rests_discardOne s p upTo k).trans (ih _)

theorem Housed.rests_stockSpare (hs : s.Housed []) : s.Rests s.stockSpare.2 := by
  unfold Store.stockSpare
  split
  · cases hn : s.newSegment with
    | mk made s₁ =>
      have hmade := rests_newSegment hs.toFiled hn
      cases made with
      | error e => exact hmade.trans (rests_of_eq rfl rfl)
      | ok k =>
        dsimp only
        unfold Store.placeSpare
        split
        · exact hmade.trans (rests_of_eq rfl rfl)
        · exact hmade.trans (rests_deleteFile s₁ k)
  · exact rests_of_eq rfl rfl

theorem rests_deleteEach (todo : List Handle) (s : Store) : s.Rests (deleteEach todo s).2 := by
  induction todo generalizing s with
  | nil => exact rests_of_eq rfl rfl
  | cons k rest ih =>
    have hone := rests_deleteFile s k
    unfold Store.deleteEach
    split <;> rename_i hd <;> rw [hd] at hone
    · exact hone.trans (ih _)
    · exact hone.trans (ih _)
    · exact hone

theorem rests_wipe (s : Store) : s.Rests s.wipe.2 := by
  have hout : s.Rests { s with active := [], spare := none } := rests_of_eq rfl rfl
  exact hout.trans (rests_deleteEach _ _)

end SegmentLog.Store
