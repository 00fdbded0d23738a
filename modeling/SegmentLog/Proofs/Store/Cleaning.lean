import SegmentLog.Proofs.Disk.Clearing
import SegmentLog.Proofs.Store.Leading

/-!
# What a discard cleans

In a store in order, a discard comes to every segment up to the one of its position, because the
numbers of the active segments ascend. So it forgets the partition in all of these as far as the
position covers it, and leaves none of them active that nothing depends on any more; and apart from
the marks of this partition, the segments that it takes out and their files, it leaves everything as
it was.

* `Segment.offset?_noteFlush` — the marks of a segment after a flush;
* `discard_frame` — what a discard leaves alone;
* `Housed.discardEach_gone` — the files of the segments that it takes out;
* `discard_cleans` — all of it, in every state that a store can be in.
-/

namespace SegmentLog

namespace Segment

variable {g : Segment} {p : Partition} {upTo : Position}

/-- A flush takes the mark of its partition away if it covers it, and moves no other. -/
theorem offset?_noteFlush (g : Segment) (p : Partition) (upTo : Position) (q : Partition) :
    (g.noteFlush p upTo).marks.offset? q =
      if q = p then (g.marks.offset? p).filter (fun o => !g.isCovered upTo o)
      else g.marks.offset? q := by
  cases ho : g.marks.offset? p with
  | none =>
    simp only [noteFlush, ho, Option.filter_none]
    split
    · rename_i hq
      rw [hq, ho]
    · rfl
  | some o =>
    cases hcovered : g.isCovered upTo o with
    | true =>
      simp only [noteFlush, ho, hcovered, if_true, forget, Marks.offset?_erase, Option.filter_some,
        Bool.not_true, Bool.false_eq_true, if_false]
    | false =>
      simp only [noteFlush, ho, hcovered, Bool.false_eq_true, if_false, Option.filter_some,
        Bool.not_false, if_true]
      split
      · rename_i hq
        rw [hq, ho]
      · rfl

/-- A flush up to a later segment takes the mark of its partition away. -/
theorem offset?_noteFlush_of_lt (h : g.id < upTo.segment) :
    (g.noteFlush p upTo).marks.offset? p = none := by
  have hcovered : ∀ o, g.isCovered upTo o = true := fun o => by
    rw [isCovered, decide_eq_true h, Bool.true_or]
  rw [offset?_noteFlush, if_pos rfl]
  simp [hcovered]

/-- A flush up to an offset of a segment takes the mark of its partition away unless it lies behind
the offset. -/
theorem offset?_noteFlush_of_eq (h : g.id = upTo.segment) :
    (g.noteFlush p upTo).marks.offset? p =
      (g.marks.offset? p).filter (fun o => upTo.offset < o) := by
  have hcovered : ∀ o, (!g.isCovered upTo o) = decide (upTo.offset < o) := by
    intro o
    rw [isCovered, h, decide_eq_false (UInt64.lt_irrefl _), Bool.false_or, beq_self_eq_true,
      Bool.true_and, ← decide_not]
    exact decide_eq_decide.mpr Nat.not_le
  rw [offset?_noteFlush, if_pos rfl]
  simp only [hcovered]

/-- A flush up to an earlier segment changes nothing. -/
theorem noteFlush_of_segment_lt (h : upTo.segment < g.id) : g.noteFlush p upTo = g := by
  cases ho : g.marks.offset? p with
  | none => simp only [noteFlush, ho]
  | some o => exact g.noteFlush_of_lt ho (.inl h)

end Segment

namespace Store

variable {s s' : Store} {loose : List Handle} {p : Partition} {upTo : Position}

/-! ## What is left alone -/

/-- A walk changes nothing but the marks, which segments are active, and the disk. -/
theorem discardEach_frame (p : Partition) (upTo : Position) (todo : List Handle) (s : Store) :
    ∃ table active disk, discardEach p upTo todo s = { s with table, active, disk } := by
  induction todo generalizing s with
  | nil => exact ⟨s.table, s.active, s.disk, rfl⟩
  | cons h rest ih =>
    have hone : ∃ table active disk, s.discardOne p upTo h = { s with table, active, disk } := by
      obtain ⟨-, -, _, d, -, he⟩ | ⟨-, he⟩ := discardOne_cases s p upTo h
      · exact ⟨_, _, _, he⟩
      · exact ⟨_, _, _, he⟩
    obtain ⟨table, active, disk, he⟩ := hone
    rw [discardEach_cons]
    split
    · exact ⟨table, active, disk, he⟩
    · obtain ⟨table', active', disk', he'⟩ := ih (s.discardOne p upTo h)
      rw [he] at he' ⊢
      exact ⟨table', active', disk', he'⟩

theorem discard_frame (s : Store) (p : Partition) (upTo : Position) :
    ∃ table active disk, s.discard p upTo = { s with table, active, disk } :=
  discardEach_frame p upTo s.active s

/-! ## Files that go -/

/-- What a step of the walk does to the disk: it removes the file of a segment that it takes out,
and nothing else. -/
theorem disk_discardOne (s : Store) (p : Partition) (upTo : Position) (h : Handle) :
    (s.discardOne p upTo h).disk = s.disk ∧ (s.discardOne p upTo h).active = s.active ∨
      (s.discardOne p upTo h).disk = (s.disk.remove (s.segment h).path).2 ∧
        (s.discardOne p upTo h).active = s.active.erase h := by
  obtain ⟨-, -, _, d, hr, he⟩ | ⟨-, he⟩ := discardOne_cases s p upTo h
  · rw [he, hr]
    exact .inr ⟨rfl, rfl⟩
  · rw [he]
    exact .inl ⟨rfl, rfl⟩

theorem path_discardOne (s : Store) (p : Partition) (upTo : Position) (h k : Handle) :
    ((s.discardOne p upTo h).segment k).path = (s.segment k).path := by
  rw [segment_discardOne]
  split
  · exact (Segment.sameFile_noteFlush _ p upTo).path
  · rfl

/-- A walk puts no file where there was none. -/
theorem isFile_of_discardEach {q : Path} {todo : List Handle}
    (h : (discardEach p upTo todo s).disk.isFile q = true) : s.disk.isFile q = true := by
  induction todo generalizing s with
  | nil => exact h
  | cons k rest ih =>
    have hone : (s.discardOne p upTo k).disk.isFile q = true → s.disk.isFile q = true := by
      rcases disk_discardOne s p upTo k with ⟨hd, -⟩ | ⟨hd, -⟩
      · rw [hd]
        exact id
      · rw [hd]
        exact Disk.isFile_of_remove rfl
    rw [discardEach_cons] at h
    split at h
    · exact hone h
    · exact hone (ih h)

/-- A walk changes nothing in the files. -/
theorem files_discardEach (p : Partition) (upTo : Position) (todo : List Handle) (s : Store) :
    (discardEach p upTo todo s).disk.files = s.disk.files := by
  induction todo generalizing s with
  | nil => rfl
  | cons k rest ih =>
    have hone : (s.discardOne p upTo k).disk.files = s.disk.files := by
      rcases disk_discardOne s p upTo k with ⟨hd, -⟩ | ⟨hd, -⟩
      · rw [hd]
      · rw [hd]
        exact Disk.files_remove rfl
    rw [discardEach_cons]
    split
    · exact hone
    · exact (ih _).trans hone

/-- The segments that a walk takes out have lost their files, if no removal fails. -/
theorem Housed.discardEach_gone (hs : s.Housed loose)
    (hfaults : ∀ f ∈ s.disk.faults.remove, f = none) {todo : List Handle} {k : Handle}
    (hk : k ∈ s.active) (hgone : k ∉ (Store.discardEach p upTo todo s).active) :
    (Store.discardEach p upTo todo s).disk.isFile (s.segment k).path = false := by
  induction todo generalizing s with
  | nil => exact absurd hk hgone
  | cons h rest ih =>
    have hs₁ := hs.discardOne p upTo h
    have hfaults₁ : ∀ f ∈ (s.discardOne p upTo h).disk.faults.remove, f = none := by
      rcases disk_discardOne s p upTo h with ⟨hd, -⟩ | ⟨hd, -⟩
      · rwa [hd]
      · rw [hd, (Disk.remove_cases (Prod.eta (s.disk.remove (s.segment h).path)).symm).1]
        exact fun f hf => hfaults f (List.mem_of_mem_tail hf)
    by_cases hk₁ : k ∈ (s.discardOne p upTo h).active
    · rw [discardEach_cons] at hgone ⊢
      split at hgone
      · exact absurd hk₁ hgone
      · rename_i hon
        rw [if_neg hon, ← path_discardOne s p upTo h k]
        exact ih hs₁ hfaults₁ hk₁ hgone
    · -- the segment goes here, and its file does not come back
      have hfile : (s.discardOne p upTo h).disk.isFile (s.segment k).path = false := by
        rcases disk_discardOne s p upTo h with ⟨-, ha⟩ | ⟨hd, ha⟩
        · exact absurd (ha ▸ hk) hk₁
        · obtain rfl : k = h := Decidable.byContradiction fun hne =>
            hk₁ (ha ▸ (List.mem_erase_of_ne hne).mpr hk)
          obtain ⟨q, hq⟩ := hs.found_active hk
          rw [hd]
          exact Disk.not_isFile_remove hfaults (Disk.isFile_iff.mpr ⟨q, _, hq⟩)
      rw [discardEach_cons]
      split
      · exact hfile
      · exact Bool.eq_false_iff.mpr fun hback =>
          Bool.false_ne_true (hfile ▸ isFile_of_discardEach hback)

/-! ## The whole discard -/

/-- What a discard for a partition and a position makes of a store. -/
structure Cleaned (s s' : Store) (p : Partition) (upTo : Position) : Prop where
  /-- The segments that stay are in their order. -/
  survivors : s'.active.Sublist s.active
  spare : s'.spare = s.spare
  settings : s'.settings = s.settings
  ids : s'.ids = s.ids
  monitor : s'.monitor = s.monitor
  /-- Nothing of a segment changes but its marks. -/
  segments : ∀ k, ∃ marks, s'.segment k = { s.segment k with marks }
  /-- The spare is left as it is, and so is every segment without a place. -/
  apart : ∀ k, k ∉ s.active → s'.segment k = s.segment k
  /-- In the segments before the position the partition is forgotten. -/
  earlier : ∀ k ∈ s'.active, (s.segment k).id < upTo.segment →
    (s'.segment k).marks.offset? p = none
  /-- In the segment of the position it is forgotten unless its mark lies behind the position. -/
  holder : ∀ k ∈ s'.active, (s.segment k).id = upTo.segment →
    (s'.segment k).marks.offset? p =
      ((s.segment k).marks.offset? p).filter (fun o => upTo.offset < o)
  /-- The segments behind the position keep their marks. -/
  later : ∀ k, upTo.segment < (s.segment k).id → (s'.segment k).marks = (s.segment k).marks
  /-- The other partitions keep theirs everywhere. -/
  others : ∀ k, ∀ q ≠ p, (s'.segment k).marks.offset? q = (s.segment k).marks.offset? q
  /-- Only a segment is taken out that is sealed and has no mark left, and its file is removed. -/
  removed : ∀ k ∈ s.active, k ∉ s'.active → (s.segment k).sealed = true ∧
    (s'.segment k).marks.isEmpty = true ∧ s'.disk.isFile (s.segment k).path = false
  /-- No segment up to the position stays that nothing depends on. -/
  needed : ∀ k ∈ s'.active, (s.segment k).id ≤ upTo.segment → (s'.segment k).isSpent = false
  /-- The files of the segments that stay, and of the spare, are where they were. -/
  found : ∀ k ∈ s'.active ++ s'.spare.toList, s'.Found k
  files : s'.disk.files = s.disk.files

/-- A discard on a store in order, if no removal fails. -/
theorem Sound.cleaned (hs : s.Sound []) (hfaults : ∀ f ∈ s.disk.faults.remove, f = none)
    (p : Partition) (upTo : Position) : s.Cleaned (s.discard p upTo) p upTo := by
  have hnodup : s.active.Nodup := hs.ascending_active.imp fun hlt => Nat.ne_of_lt hlt
  have hactive : (s.discard p upTo).active = _ := active_discard hnodup
  have hmem : ∀ k ∈ (s.discard p upTo).active, k ∈ s.active := fun k hk =>
    (List.mem_filter.mp (hactive ▸ hk)).1
  obtain ⟨table, active, disk, hframe⟩ := s.discard_frame p upTo
  constructor
  case survivors =>
    rw [hactive]
    exact List.filter_sublist
  case spare => rw [hframe]
  case settings => rw [hframe]
  case ids => rw [hframe]
  case monitor => rw [hframe]
  case segments =>
    intro k
    rw [segment_discard]
    split
    · obtain ⟨marks, hflush, -⟩ := (s.segment k).noteFlush_eq p upTo
      exact ⟨marks, hflush⟩
    · exact ⟨_, rfl⟩
  case apart =>
    intro k hk
    have hunvisited : k ∉ s.visited upTo := fun hv =>
      hk ((s.walked_isPrefix upTo s.active).subset hv)
    rw [segment_discard, if_neg hunvisited]
  case earlier =>
    intro k hk hid
    rw [segment_discard, if_pos (hs.mem_visited (hmem k hk) (UInt64.le_of_lt hid))]
    exact Segment.offset?_noteFlush_of_lt hid
  case holder =>
    intro k hk hid
    rw [segment_discard, if_pos (hs.mem_visited (hmem k hk) (UInt64.le_of_eq hid))]
    exact Segment.offset?_noteFlush_of_eq hid
  case later =>
    intro k hid
    rw [segment_discard]
    split
    · rw [Segment.noteFlush_of_segment_lt hid]
    · rfl
  case others =>
    intro k q hq
    rw [segment_discard]
    split
    · rw [Segment.offset?_noteFlush, if_neg hq]
    · rfl
  case removed =>
    intro k hk hgone
    have hspent : k ∈ s.visited upTo ∧ ((s.segment k).noteFlush p upTo).isSpent = true := by
      rw [hactive, List.mem_filter, not_and] at hgone
      simpa using hgone hk
    obtain ⟨hvisited, hspent⟩ := hspent
    obtain ⟨marks, hflush, -⟩ := (s.segment k).noteFlush_eq p upTo
    obtain ⟨hsealed, hempty⟩ := Bool.and_eq_true_iff.mp hspent
    rw [hflush] at hsealed
    refine ⟨hsealed, ?_, hs.housed.discardEach_gone hfaults hk hgone⟩
    rw [segment_discard, if_pos hvisited]
    exact hempty
  case needed =>
    intro k hk hid
    exact (settled_discard hnodup (hs.mem_visited (hmem k hk) hid) hk).needed
  case found =>
    intro k hk
    refine (hs.housed.discard p upTo).found k ?_
    rwa [List.append_nil]
  case files => exact files_discardEach p upTo s.active s

/-- **A discard cleans just what it covers, and leaves nothing behind that it covers.** Whatever
requests a store has served since it was opened, if the numbers have not run out and no removal
fails: a discard for a partition forgets it in all segments before the position, in the segment of
the position unless its mark lies further on, and in none behind. It takes out only sealed segments
without a mark, with their files, and leaves none of these up to the position. The marks of other
partitions, everything else about the segments, their order, the spare and the next number stay as
they were. -/
theorem discard_cleans {settings : Settings} {now : UInt64} {disk : Disk} {monitor : Monitor}
    {opened : Store} (hopen : onDirectory settings now disk monitor = .ok opened)
    (hdisk : disk.WellFormed) {requests : List Request}
    (hids : ∀ served, served <+: requests → (opened.serveAll served).ids.next ≠ 0)
    (hremove : ∀ f ∈ (opened.serveAll requests).disk.faults.remove, f = none)
    (p : Partition) (upTo : Position) :
    let s := opened.serveAll requests
    s.Cleaned (s.discard p upTo) p upTo :=
  ((sound_onDirectory hopen hdisk).leads_serveAll hids).sound.cleaned hremove p upTo

/-- Of three segments the first one goes, and with it its file; the second one keeps the mark of the
partition, which lies behind the position. -/
theorem discard_cleans_first :
    let s := (blank { directory := ⟨[Path.dot]⟩, segmentSize := 64, lookAhead := false } 5).serveAll
      [.append (.raw [⟨1⟩] (.replicate 20 0)), .append (.raw [⟨1⟩] (.replicate 20 0)),
        .append (.raw [⟨2⟩] (.replicate 20 0)), .append (.raw [⟨1⟩] (.replicate 20 0)),
        .append (.raw [⟨1⟩] (.replicate 20 0))]
    let s' := s.discard ⟨1⟩ ⟨6, 31⟩
    s.active = [0, 1, 2] ∧ s'.active = [1, 2] ∧ s'.disk.isFile (s.segment 0).path = false ∧
      (s'.segment 1).marks.offset? ⟨1⟩ = some 32 ∧ (s'.segment 1).marks.offset? ⟨2⟩ = some 0 := by
  intro s s'
  have hactive : s.active = [0, 1, 2] := by decide +kernel
  have hactive' : s'.active = [1, 2] := by decide +kernel
  have hcleaned : s.Cleaned s' ⟨1⟩ ⟨6, 31⟩ := by
    refine discard_cleans (onDirectory_blank rfl 5 _) (Disk.wellFormed_empty _)
      (fun served hserved => ?_) (by decide +kernel) ⟨1⟩ ⟨6, 31⟩
    rw [List.prefix_iff_eq_take.mp hserved]
    have hlength := hserved.length_le
    generalize served.length = n at hlength ⊢
    decide +kernel +revert
  have hfirst := hcleaned.removed 0 (by rw [hactive]; decide) (by rw [hactive']; decide)
  have hsecond := hcleaned.holder 1 (by rw [hactive']; decide) (by decide +kernel)
  have hother := hcleaned.others 1 ⟨2⟩ (by decide)
  refine ⟨hactive, hactive', hfirst.2.2, hsecond.trans ?_, hother.trans ?_⟩
  · decide +kernel
  · decide +kernel

end Store

end SegmentLog
