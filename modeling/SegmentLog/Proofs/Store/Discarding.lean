import Mathlib.Data.List.Nodup
import SegmentLog.Proofs.Store.Requests

/-!
# Discarding again

A discard walks over the active segments up to and including the first that the position lies in.
In closed form: it forgets the marks of the segments it comes to, and takes out those that are spent
after that. A segment that it came to and left is settled, so that the same discard finds nothing
more to do in it. A second call goes no further than the first, unless the first has deleted the
very segment at which it stopped; then it comes to the segments behind, and takes out what became
spent there by other ways.

* `segment_discard`, `active_discard` — a discard in closed form;
* `discard_eq_self_iff` — when a discard changes nothing;
* `discard_discard_iff` — when the second of two equal discards changes nothing;
* `discard_discard_discard` — the third never does, if no two active segments share a number.
-/

namespace SegmentLog

namespace Segment

/-- Whether a flush of a partition up to a position leaves nothing to be done in a segment. -/
structure Settled (g : Segment) (p : Partition) (upTo : Position) : Prop where
  flushed : g.noteFlush p upTo = g
  needed : g.isSpent = false

theorem noteFlush_noteFlush (g : Segment) (p : Partition) (upTo : Position) :
    (g.noteFlush p upTo).noteFlush p upTo = g.noteFlush p upTo := by
  cases ho : g.marks.offset? p with
  | none => simp only [noteFlush, ho]
  | some o =>
    by_cases hcovered : g.isCovered upTo o = true
    · have hforget : g.noteFlush p upTo = g.forget p := by
        simp only [noteFlush, ho, if_pos hcovered]
      have hnone : (g.forget p).marks.offset? p = none := by
        rw [forget, Marks.offset?_erase, if_pos rfl]
      rw [hforget, noteFlush, hnone]
    · have hsame : g.noteFlush p upTo = g := by
        simp only [noteFlush, ho, if_neg hcovered]
      rw [hsame, hsame]

theorem id_noteFlush (g : Segment) (p : Partition) (upTo : Position) :
    (g.noteFlush p upTo).id = g.id :=
  congrArg SegmentName.id (g.name_noteFlush p upTo)

theorem holds_congr {g g' : Segment} (h : g'.id = g.id) (upTo : Position) :
    g'.holds upTo = g.holds upTo := by
  rw [holds, holds, h]

end Segment

namespace Store

variable {s s' : Store} {loose : List Handle} {p : Partition} {upTo : Position}

/-! ## One segment -/

/-- What the walk does to one segment: it forgets its marks, and takes it out if it is spent after
that. -/
theorem discardOne_cases (s : Store) (p : Partition) (upTo : Position) (h : Handle) :
    ((s.segment h).noteFlush p upTo).isSpent = true ∧ h ∈ s.active ∧
        (∃ r d, s.disk.remove (s.segment h).path = (r, d) ∧ s.discardOne p upTo h =
          { s.noteFlush h p upTo with active := s.active.erase h, disk := d }) ∨
      ¬ (((s.segment h).noteFlush p upTo).isSpent = true ∧ h ∈ s.active) ∧
        s.discardOne p upTo h = s.noteFlush h p upTo := by
  have hsegment : (s.noteFlush h p upTo).segment h = (s.segment h).noteFlush p upTo := by
    rw [segment_noteFlush, if_pos rfl]
  unfold Store.discardOne
  dsimp only
  rw [hsegment]
  split
  · rename_i hspent
    unfold Store.deleteSegment
    rcases unlink_cases (s.noteFlush h p upTo) h with ⟨hu, hh, -⟩ | ⟨hu, hout⟩
    · obtain ⟨d, hd, hr⟩ := deleteFile_cases (s := { s.noteFlush h p upTo with
        active := (s.noteFlush h p upTo).active.erase h }) (h := h) rfl
      have hpath : ((s.noteFlush h p upTo).segment h).path = (s.segment h).path := by
        rw [hsegment, (Segment.sameFile_noteFlush _ p upTo).path]
      refine .inl ⟨hspent, hh, _, d, hpath ▸ hr, ?_⟩
      rw [hu]
      exact hd
    · refine .inr ⟨fun hc => hout ⟨hc.2, ?_⟩, by rw [hu]⟩
      rw [hsegment]
      exact (Bool.and_eq_true_iff.mp hspent).1
  · rename_i hneeded
    exact .inr ⟨fun hc => hneeded hc.1, rfl⟩

theorem segment_discardOne (s : Store) (p : Partition) (upTo : Position) (h k : Handle) :
    (s.discardOne p upTo h).segment k =
      if k = h then (s.segment k).noteFlush p upTo else s.segment k := by
  rw [← segment_noteFlush]
  obtain ⟨-, -, _, d, -, he⟩ | ⟨-, he⟩ := discardOne_cases s p upTo h
  · rw [he]
    rfl
  · rw [he]

theorem active_discardOne (hs : s.active.Nodup) (h : Handle) :
    (s.discardOne p upTo h).active =
      s.active.filter fun k => k != h || !((s.segment k).noteFlush p upTo).isSpent := by
  obtain ⟨hspent, -, _, d, -, he⟩ | ⟨hkept, he⟩ := discardOne_cases s p upTo h
  · rw [he]
    dsimp only
    rw [hs.erase_eq_filter]
    refine List.filter_congr fun k _ => ?_
    by_cases hkh : k = h
    · rw [hkh, hspent, Bool.not_true, Bool.or_false]
    · rw [bne_iff_ne.mpr hkh, Bool.true_or]
  · rw [he]
    refine (List.filter_eq_self.mpr fun k hk => ?_).symm
    by_cases hkh : k = h
    · subst hkh
      have hneeded := Bool.eq_false_iff.mpr fun hspent => hkept ⟨hspent, hk⟩
      rw [hneeded, Bool.not_false, Bool.or_true]
    · rw [bne_iff_ne.mpr hkh, Bool.true_or]

/-- In a settled segment there is nothing to do. -/
theorem discardOne_settled {h : Handle} (hh : (s.segment h).Settled p upTo) :
    s.discardOne p upTo h = s := by
  have hsame : s.noteFlush h p upTo = s := by
    show s.modify h _ = s
    simp only [modify]
    congr 1
    apply Array.ext_getElem?
    intro i
    rw [Array.getElem?_modify]
    split
    · rename_i hi
      subst hi
      cases hk : s.table[h]? with
      | none => rfl
      | some g =>
        have hg : s.segment h = g := by
          rw [segment, Array.getD_eq_getD_getElem?, hk]
          rfl
        rw [Option.map_some, ← hg, hh.flushed]
    · rfl
  obtain ⟨hspent, -⟩ | ⟨-, he⟩ := discardOne_cases s p upTo h
  · rw [hh.flushed, hh.needed] at hspent
    cases hspent
  · rw [he, hsame]

/-! ## The walk -/

/-- Those of some segments that a discard comes to: all up to the first that the position lies
in. -/
def walked (s : Store) (upTo : Position) : List Handle → List Handle
  | [] => []
  | h :: rest => h :: if (s.segment h).holds upTo then [] else s.walked upTo rest

theorem walked_congr (hid : ∀ k, (s'.segment k).id = (s.segment k).id) (l : List Handle) :
    s'.walked upTo l = s.walked upTo l := by
  induction l with
  | nil => rfl
  | cons h rest ih => rw [walked, walked, Segment.holds_congr (hid h), ih]

theorem walked_isPrefix (s : Store) (upTo : Position) (l : List Handle) :
    s.walked upTo l <+: l := by
  induction l with
  | nil => exact List.prefix_refl _
  | cons h rest ih =>
    rw [walked, List.prefix_cons_inj]
    split
    · exact List.nil_prefix
    · exact ih

theorem walked_append {xs : List Handle} {h : Handle} (hh : h ∈ xs)
    (hholds : (s.segment h).holds upTo = true) (ys : List Handle) :
    s.walked upTo (xs ++ ys) = s.walked upTo xs := by
  induction xs with
  | nil => cases hh
  | cons x rest ih =>
    rw [List.cons_append, walked, walked]
    split
    · rfl
    · rename_i hx
      rcases List.mem_cons.mp hh with rfl | hh
      · exact absurd hholds hx
      · rw [ih hh]

/-- A walk comes to a segment if the position lies in none of those before it. -/
theorem mem_walked {h : Handle} {xs : List Handle}
    (hxs : ∀ x ∈ xs, (s.segment x).holds upTo = false) (ys : List Handle) :
    h ∈ s.walked upTo (xs ++ h :: ys) := by
  induction xs with
  | nil => exact List.mem_cons_self
  | cons x rest ih =>
    rw [List.cons_append, walked, hxs x List.mem_cons_self, if_neg Bool.false_ne_true]
    exact List.mem_cons_of_mem _ (ih fun y hy => hxs y (List.mem_cons_of_mem _ hy))

/-- A walk that comes to its end without a segment of the position comes to all of them. -/
theorem walked_eq_self {l : List Handle}
    (hl : ∀ h ∈ s.walked upTo l, (s.segment h).holds upTo = false) : s.walked upTo l = l := by
  induction l with
  | nil => rfl
  | cons h rest ih =>
    rw [walked] at hl ⊢
    have hh := hl h List.mem_cons_self
    rw [hh] at hl ⊢
    rw [if_neg Bool.false_ne_true] at hl ⊢
    rw [ih fun k hk => hl k (List.mem_cons_of_mem _ hk)]

theorem id_discardOne (s : Store) (p : Partition) (upTo : Position) (h k : Handle) :
    ((s.discardOne p upTo h).segment k).id = (s.segment k).id := by
  rw [segment_discardOne]
  split
  · exact Segment.id_noteFlush _ p upTo
  · rfl

/-- The walk is a fold over the segments that it comes to. -/
theorem discardEach_eq (p : Partition) (upTo : Position) (l : List Handle) (s : Store) :
    discardEach p upTo l s = (s.walked upTo l).foldl (fun s h => s.discardOne p upTo h) s := by
  induction l generalizing s with
  | nil => rfl
  | cons h rest ih =>
    have hid := id_discardOne s p upTo h
    rw [discardEach_cons, walked, List.foldl_cons, Segment.holds_congr (hid h)]
    split
    · rfl
    · rw [ih, walked_congr hid]

/-! ## A discard in closed form -/

theorem segment_foldl_discardOne (l : List Handle) (s : Store) (k : Handle) :
    (l.foldl (fun s h => s.discardOne p upTo h) s).segment k =
      if k ∈ l then (s.segment k).noteFlush p upTo else s.segment k := by
  induction l generalizing s with
  | nil => rfl
  | cons h rest ih =>
    rw [List.foldl_cons, ih, segment_discardOne]
    by_cases hkh : k = h
    · subst hkh
      rw [if_pos rfl, if_pos List.mem_cons_self, Segment.noteFlush_noteFlush, ite_self]
    · rw [if_neg hkh]
      simp only [List.mem_cons, hkh, false_or]

theorem active_foldl_discardOne (hs : s.active.Nodup) (l : List Handle) :
    (l.foldl (fun s h => s.discardOne p upTo h) s).active =
      s.active.filter fun k => k ∉ l || !((s.segment k).noteFlush p upTo).isSpent := by
  induction l generalizing s with
  | nil => simp
  | cons h rest ih =>
    have hactive : (s.discardOne p upTo h).active = _ := active_discardOne hs h
    rw [List.foldl_cons, ih (by rw [hactive]; exact hs.filter _), hactive, List.filter_filter]
    refine List.filter_congr fun k _ => ?_
    rw [segment_discardOne]
    by_cases hkh : k = h
    · subst hkh
      rw [if_pos rfl, Segment.noteFlush_noteFlush, bne_self_eq_false, Bool.false_or,
        decide_eq_false (not_not_intro (List.mem_cons_self (a := k) (l := rest))), Bool.false_or]
      cases ((s.segment k).noteFlush p upTo).isSpent <;> simp
    · rw [if_neg hkh, bne_iff_ne.mpr hkh, Bool.true_or, Bool.and_true]
      simp only [List.mem_cons, hkh, false_or]

/-- The segments that a discard comes to. -/
def visited (s : Store) (upTo : Position) : List Handle := s.walked upTo s.active

/-- In a store in order a discard comes to every segment up to the one of the position. -/
theorem Sound.mem_visited (hs : s.Sound loose) {h : Handle} (hh : h ∈ s.active)
    (hid : (s.segment h).id ≤ upTo.segment) : h ∈ s.visited upTo := by
  obtain ⟨xs, ys, hsplit⟩ := List.append_of_mem hh
  have horder := hs.ascending_active
  rw [hsplit] at horder
  rw [visited, hsplit]
  refine mem_walked (fun x hx => ?_) ys
  have hactive : x ∈ s.active := by
    rw [hsplit]
    exact List.mem_append_left _ hx
  have hlt : (s.segment x).id < (s.segment h).id :=
    (hs.id_lt_iff (hs.known_active hactive) (hs.known_active hh)).mpr
      ((List.pairwise_append.mp horder).2.2 x hx h List.mem_cons_self)
  rw [Segment.holds, beq_eq_false_iff_ne]
  exact fun he => UInt64.not_le.mpr hlt (he ▸ hid)

theorem segment_discard (s : Store) (p : Partition) (upTo : Position) (k : Handle) :
    (s.discard p upTo).segment k =
      if k ∈ s.visited upTo then (s.segment k).noteFlush p upTo else s.segment k := by
  rw [Store.discard, discardEach_eq, segment_foldl_discardOne, visited]

theorem active_discard (hs : s.active.Nodup) :
    (s.discard p upTo).active = s.active.filter fun k =>
      k ∉ s.visited upTo || !((s.segment k).noteFlush p upTo).isSpent := by
  rw [Store.discard, discardEach_eq, active_foldl_discardOne hs, visited]

theorem id_discard (s : Store) (p : Partition) (upTo : Position) (k : Handle) :
    ((s.discard p upTo).segment k).id = (s.segment k).id := by
  rw [segment_discard]
  split
  · exact Segment.id_noteFlush _ p upTo
  · rfl

/-- What a discard came to and left is settled. -/
theorem settled_discard (hs : s.active.Nodup) {k : Handle} (hk : k ∈ s.visited upTo)
    (hactive : k ∈ (s.discard p upTo).active) :
    ((s.discard p upTo).segment k).Settled p upTo := by
  rw [active_discard hs, List.mem_filter, decide_eq_false (not_not_intro hk), Bool.false_or,
    Bool.not_eq_true'] at hactive
  rw [segment_discard, if_pos hk]
  exact ⟨Segment.noteFlush_noteFlush _ p upTo, hactive.2⟩

/-- A discard changes nothing exactly if all that it comes to is settled. -/
theorem discard_eq_self_iff (hs : s.active.Nodup) :
    s.discard p upTo = s ↔ ∀ k ∈ s.visited upTo, (s.segment k).Settled p upTo := by
  constructor
  · intro he k hk
    have hactive : k ∈ (s.discard p upTo).active := by
      rw [he]
      exact (s.walked_isPrefix upTo s.active).subset hk
    have hsettled := settled_discard hs hk hactive
    rw [he] at hsettled
    exact hsettled
  · intro hsettled
    rw [Store.discard, discardEach_eq]
    show (s.visited upTo).foldl _ s = s
    generalize s.visited upTo = l at hsettled
    induction l with
    | nil => rfl
    | cons h rest ih =>
      rw [List.foldl_cons, discardOne_settled (hsettled h List.mem_cons_self)]
      exact ih fun k hk => hsettled k (List.mem_cons_of_mem _ hk)

/-! ## Discarding again -/

/-- A second discard comes to nothing that the first did not come to, unless the first has deleted
the segment at which it stopped. -/
theorem visited_discard_subset (hs : s.active.Nodup)
    (hstop : ∀ h ∈ s.visited upTo, (s.segment h).holds upTo = true →
      h ∈ (s.discard p upTo).active) :
    (s.discard p upTo).visited upTo ⊆ s.visited upTo := by
  have hwalk : (s.discard p upTo).visited upTo = s.walked upTo (s.discard p upTo).active :=
    walked_congr (id_discard s p upTo) _
  rw [hwalk]
  by_cases hholder : ∃ h ∈ s.visited upTo, (s.segment h).holds upTo = true
  · obtain ⟨h, hh, hholds⟩ := hholder
    obtain ⟨rest, hrest⟩ := s.walked_isPrefix upTo s.active
    have hactive : (s.discard p upTo).active = _ := active_discard hs
    rw [← hrest, List.filter_append] at hactive
    have hh' : h ∈ (s.walked upTo s.active).filter fun k =>
        k ∉ s.visited upTo || !((s.segment k).noteFlush p upTo).isSpent := by
      have hmem := hstop h hh hholds
      rw [active_discard hs, List.mem_filter] at hmem
      exact List.mem_filter.mpr ⟨hh, hmem.2⟩
    rw [hactive, walked_append hh' hholds]
    exact fun k hk => (List.mem_filter.mp ((s.walked_isPrefix upTo _).subset hk)).1
  · -- the first walk did not stop before the end
    have hall : s.visited upTo = s.active := by
      refine walked_eq_self fun h hh => ?_
      exact Bool.eq_false_iff.mpr fun hholds => hholder ⟨h, hh, hholds⟩
    intro k hk
    have hk' := (s.walked_isPrefix upTo _).subset hk
    rw [active_discard hs] at hk'
    rw [hall]
    exact (List.mem_filter.mp hk').1

/-- The second of two equal discards changes nothing, unless the first has deleted the segment at
which it stopped and something is left to be done in what the second comes to. -/
theorem discard_discard_iff (hs : s.active.Nodup) :
    (s.discard p upTo).discard p upTo = s.discard p upTo ↔
      ∀ h ∈ s.visited upTo, (s.segment h).holds upTo = true → h ∉ (s.discard p upTo).active →
        ∀ k ∈ (s.discard p upTo).visited upTo,
          ((s.discard p upTo).segment k).Settled p upTo := by
  have hs' : (s.discard p upTo).active.Nodup := by
    rw [active_discard hs]
    exact hs.filter _
  rw [discard_eq_self_iff hs']
  constructor
  · exact fun hsettled _ _ _ _ => hsettled
  · intro hcase k hk
    by_cases hstop : ∀ h ∈ s.visited upTo, (s.segment h).holds upTo = true →
        h ∈ (s.discard p upTo).active
    · refine settled_discard hs (visited_discard_subset hs hstop hk) ?_
      exact ((s.discard p upTo).walked_isPrefix upTo _).subset hk
    · push Not at hstop
      obtain ⟨h, hh, hholds, hgone⟩ := hstop
      exact hcase h hh hholds hgone k hk

/-- A third discard never changes anything, if no two active segments have one number. -/
theorem discard_discard_discard (hs : s.active.Nodup)
    (hids : (s.active.map fun h => (s.segment h).id).Nodup) :
    ((s.discard p upTo).discard p upTo).discard p upTo = (s.discard p upTo).discard p upTo := by
  have hs' : (s.discard p upTo).active.Nodup := by
    rw [active_discard hs]
    exact hs.filter _
  rw [discard_discard_iff hs']
  intro h hh hholds hgone
  by_cases hstop : ∀ h ∈ s.visited upTo, (s.segment h).holds upTo = true →
      h ∈ (s.discard p upTo).active
  · -- the second walk stopped where the first did, and has deleted nothing
    have hh' := visited_discard_subset hs hstop hh
    have hactive := ((s.discard p upTo).walked_isPrefix upTo _).subset hh
    have hsettled := settled_discard hs hh' hactive
    refine absurd ?_ hgone
    rw [active_discard hs', List.mem_filter, hsettled.flushed, hsettled.needed]
    exact ⟨hactive, Bool.or_true _⟩
  · -- the second walk came to no segment of the position
    push Not at hstop
    obtain ⟨k, hk, hholds', hgone'⟩ := hstop
    have hmem := ((s.discard p upTo).walked_isPrefix upTo _).subset hh
    have hactive : h ∈ s.active := by
      rw [active_discard hs] at hmem
      exact (List.mem_filter.mp hmem).1
    have hsame : (s.segment h).id = (s.segment k).id := by
      rw [Segment.holds_congr (id_discard s p upTo h), Segment.holds, beq_iff_eq] at hholds
      rw [Segment.holds, beq_iff_eq] at hholds'
      rw [← hholds, hholds']
    have hhk := List.inj_on_of_nodup_map hids hactive
      ((s.walked_isPrefix upTo s.active).subset hk) hsame
    rw [hhk] at hmem
    exact absurd hmem hgone'

/-- **When discarding again changes nothing.** Whatever requests a store has served since it was
opened, the second of two equal discards leaves everything as the first has left it: the active
segments, their marks and all files. The one exception is that the first has deleted the very
segment at which it stopped, and that something is still to be forgotten or to be deleted in the
segments which the second comes to in its place. -/
theorem discard_again_iff {settings : Settings} {now : UInt64} {disk : Disk} {monitor : Monitor}
    {opened : Store} (hopen : onDirectory settings now disk monitor = .ok opened)
    (hdisk : disk.WellFormed) (requests : List Request) (p : Partition) (upTo : Position) :
    let s := opened.serveAll requests
    let s' := s.discard p upTo
    s'.discard p upTo = s' ↔
      ∀ h ∈ s.visited upTo, (s.segment h).holds upTo = true → h ∉ s'.active →
        ∀ k ∈ s'.visited upTo, (s'.segment k).Settled p upTo := by
  have hs := ((housed_onDirectory hopen hdisk).serveAll requests).distinct
  exact discard_discard_iff (List.nodup_append.mp hs).1

/-- A store with two full segments, in which the first partition flushes all of the second segment
twice. -/
theorem discard_again_two_segments :
    let s := (blank { directory := ⟨[Path.dot]⟩, segmentSize := 64, lookAhead := false } 5).serveAll
      [.append (.raw [⟨2⟩] (.replicate 20 0)), .append (.raw [⟨2⟩] (.replicate 20 0)),
        .append (.raw [⟨1⟩] (.replicate 20 0)), .append (.raw [⟨1⟩] (.replicate 20 0))]
    (s.discard ⟨1⟩ ⟨6, 64⟩).discard ⟨1⟩ ⟨6, 64⟩ = s.discard ⟨1⟩ ⟨6, 64⟩ := by
  refine (discard_again_iff (onDirectory_blank rfl 5 {}) (Disk.wellFormed_empty {})
    [.append (.raw [⟨2⟩] (.replicate 20 0)), .append (.raw [⟨2⟩] (.replicate 20 0)),
      .append (.raw [⟨1⟩] (.replicate 20 0)), .append (.raw [⟨1⟩] (.replicate 20 0))]
    ⟨1⟩ ⟨6, 64⟩).mpr fun h hh hholds hgone => ?_
  refine absurd ?_ hgone
  -- the first call stops at a segment that is still open
  clear hgone
  revert h
  decide +kernel

/-- The second of two equal discards may delete a segment. The segment 6 is clean since it was
flushed while it was the last; the first call stops at the segment 5 and deletes it, and the second
goes on. -/
theorem discard_again_deletes :
    let s := (blank { directory := ⟨[Path.dot]⟩, segmentSize := 64, lookAhead := false } 5).serveAll
      [.append (.raw [⟨2⟩] (.replicate 20 0)), .append (.raw [⟨2⟩] (.replicate 20 0)),
        .append (.raw [⟨1⟩] (.replicate 20 0)), .append (.raw [⟨1⟩] (.replicate 20 0)),
        .discard ⟨1⟩ ⟨6, 64⟩, .append (.raw [⟨3⟩] (.replicate 20 0))]
    let s' := s.discard ⟨2⟩ ⟨5, 64⟩
    s.activeSegments.map (·.id) = [5, 6, 7] ∧ s'.activeSegments.map (·.id) = [6, 7] ∧
      (s'.discard ⟨2⟩ ⟨5, 64⟩).activeSegments.map (·.id) = [7] := by
  decide +kernel

end Store

end SegmentLog
