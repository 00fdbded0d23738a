import SegmentLog.Proofs.Store.Shelved

/-!
# Appends and the records of a store

What an append writes stands behind the whole frames of the last active segment. If the write
succeeds it is one frame more, and if it fails it is a torn frame, at which a replay stops and
behind which nothing is written again.

* `Shelved.put` — what a write to the last segment adds to the records;
* `Shelved.claim`, `Shelved.write`, `Shelved.acknowledge` — the parts of an append;
* `Shelved.append` — an append adds its record, or none.
-/

namespace SegmentLog

namespace Store

variable {s s' : Store} {c : Settings} {left : List Volume} {past held : List (Position × Bytes)}

/-! ## Writing -/

/-- What a store keeps when something is written to the file of one of its segments. -/
structure WritesTo (s s' : Store) (k : Handle) : Prop where
  settings : s'.settings = s.settings
  ids : s.ids.next ≤ s'.ids.next
  active : s'.active = s.active
  spare : s'.spare = s.spare
  same : ∀ j < s.table.size, (s.segment j).SameFile (s'.segment j) ∧
    (j ≠ k → s'.segment j = s.segment j)
  tree : Disk.SameTree s.disk s'.disk
  files : s'.disk.files.size = s.disk.files.size
  content : ∀ f < s.disk.files.size, f ≠ (s.segment k).file →
    s'.disk.content f = s.disk.content f
  faults : Faults.Within s.disk.faults s'.disk.faults

/-- What is written to the file of one segment changes no other segment and no other file. -/
theorem WritesTo.elsewhere {j k : Handle} (hw : s.WritesTo s' k) (hs : s.Filed)
    (hk : k < s.table.size) (hj : j < s.table.size) (hjk : j ≠ k) :
    s'.segment j = s.segment j ∧
      s'.disk.content (s.segment j).file = s.disk.content (s.segment j).file :=
  ⟨(hw.same j hj).2 hjk, hw.content _ (hs.files j hj) (hs.file_ne hj hk hjk)⟩

/-- What is written to the file of the last active segment adds to the records at the end. -/
theorem Shelved.put (hs : s.Shelved c [] left past held) (hsound : s'.Sound []) {k : Handle}
    (hk : s.tail? = some k) (hw : s.WritesTo s' k) {new : List (Position × Bytes)}
    (hrecords : s'.disk.recordsOf (s.volume k) = s.disk.recordsOf (s.volume k) ++ new)
    (hwhole : (s'.segment k).sealed = false → s'.Whole k) :
    s'.Shelved c [] left past (held ++ new) := by
  have hown : s'.own [] = s.own [] := by rw [own, own, hw.active, hw.spare]
  have hvolume : ∀ j ∈ s.own [], s'.volume j = s.volume j :=
    fun j hj => volume_eq (hw.same j (hs.known_own hj)).1
  have hshelf : s'.shelf [] left = s.shelf [] left := by
    rw [shelf, shelf, hown, List.map_congr_left hvolume]
  obtain ⟨front, hfront⟩ := List.getLast?_eq_some_iff.mp hk
  -- no other volume lies in the file that was written
  have hsplit : s.shelf [] left =
      (left ++ front.map s.volume) ++ s.volume k :: s.spare.toList.map s.volume := by
    simp [shelf, own, hfront]
  have hascending := hs.shelves.ascending
  rw [hsplit] at hascending
  obtain ⟨-, -, hbefore⟩ := List.pairwise_append.mp hascending
  have holder : ∀ v ∈ left ++ front.map s.volume,
      s'.disk.content v.file = s.disk.content v.file := by
    intro v hv
    refine hw.content _ (hs.shelves.known v ?_) (Nat.ne_of_lt (hbefore v hv _ List.mem_cons_self).2)
    rw [hsplit]
    exact List.mem_append_left _ hv
  have hother : ∀ j ∈ s.own [], j ≠ k →
      s'.disk.content (s.segment j).file = s.disk.content (s.segment j).file := by
    intro j hj hjk
    exact (hw.elsewhere hs.filed (hs.known_active (mem_of_tail? hk)) (hs.known_own hj) hjk).2
  refine {
    toSound := hsound
    settings := hw.settings.trans hs.settings
    checked := hs.checked
    stem := by rw [hw.settings]; exact hs.stem
    shelves := by
      rw [hw.settings, hshelf]
      exact hs.shelves.of_tree hw.tree (Nat.le_of_eq hw.files.symm)
    older := fun v hv => UInt64.lt_of_lt_of_le (hs.older v hv) hw.ids
    past := ?_
    held := ?_
    whole := fun j hj hunsealed => ?_
    removable := fun f hf => hs.removable f (hw.faults.remove f hf)
    syncable := fun hsync f hf => hs.syncable (hw.settings ▸ hsync) f (hw.faults.sync f hf) }
  · rw [Disk.stored_congr fun v hv => holder v (List.mem_append_left _ hv)]
    exact hs.past
  · have hspare : s'.disk.stored (s.spare.toList.map s.volume) = [] := by
      unfold Disk.stored
      rw [List.flatMap_map, List.flatMap_eq_nil_iff]
      intro j hj
      have hfresh : j ∈ s.spare.toList ++ [] := List.mem_append_left _ hj
      have hjk : j ≠ k := by
        rintro rfl
        exact hs.active_not_fresh (mem_of_tail? hk) hfresh
      rw [← hs.recordsOf_fresh hfresh]
      simp only [Disk.recordsOf, volume]
      rw [hother j (List.mem_append_right _ hfresh) hjk]
    have hactive : s.own [] = front ++ k :: s.spare.toList := by simp [own, hfront]
    rw [hown, List.map_congr_left hvolume, ← hs.held_active, hactive, hfront]
    simp only [List.map_append, List.map_cons, List.map_nil, Disk.stored_append, Disk.stored_cons,
      hspare, hrecords, Disk.stored_congr fun v hv => holder v (List.mem_append_right _ hv)]
    simp [Disk.stored]
  · rw [hown] at hj
    by_cases hjk : j = k
    · subst hjk
      exact hwhole hunsealed
    · obtain ⟨hfile, heq⟩ := hw.same j (hs.known_own hj)
      rw [heq hjk] at hunsealed
      exact (hs.whole j hj hunsealed).of_same hfile.file (by rw [heq hjk]) (hother j hj hjk)

/-- The write into a range that was just claimed touches one file only. -/
theorem writesTo_write {k : Handle} (hk : k < s.table.size)
    (hfile : (s.segment k).file < s.disk.files.size)
    {partitions : List Partition} {length : Nat} {offset : Nat} {frame : Bytes}
    {r : Except DiskError Unit}
    (h : (s.modify k fun g => g.claimed partitions length).write ⟨k, offset⟩ frame = (r, s')) :
    s.WritesTo s' k ∧ s'.table.size = s.table.size ∧
      (s'.segment k).cursor = (s.segment k).cursor + length ∧
      s.disk.writeAt (s.segment k).file offset frame = (r, s'.disk) := by
  have hclaimed := segment_modify_self (fun g => g.claimed partitions length) hk
  obtain ⟨u, d, rfl, hw⟩ := write_cases h (by rw [size_modify]; exact hk)
  rw [hclaimed] at hw
  obtain ⟨hframe, -⟩ := Disk.writeAt_cases hw hfile
  obtain ⟨plan, hplan, hwithin⟩ := hframe.faults
  have hsegment : ∀ j < s.table.size, Store.segment
      { (s.modify k fun g => g.claimed partitions length).modify k
          (fun g => { g.release offset with unsynced := u }) with disk := d } j =
        if k = j then
          { ((s.segment j).claimed partitions length).release offset with unsynced := u }
        else s.segment j := by
    intro j hj
    show ((s.modify k _).modify k _).segment j = _
    rw [modify_modify, segment_modify s k j _ hj]
    rfl
  refine ⟨{
    settings := rfl
    ids := UInt64.le_refl _
    active := rfl
    spare := rfl
    same := fun j hj => ?_
    tree := hframe.tree
    files := hframe.size
    content := fun f hf hne => hframe.others f hne hf
    faults := ?_ }, ?_, ?_, hw⟩
  · rw [hsegment j hj]
    split
    · exact ⟨⟨rfl, rfl, rfl, rfl⟩, fun hne => absurd (Eq.symm ‹k = j›) hne⟩
    · exact ⟨.refl _, fun _ => rfl⟩
  · show Faults.Within s.disk.faults d.faults
    rw [hplan]
    exact { Faults.Within.refl s.disk.faults with write := hwithin }
  · show ((s.modify k _).modify k _).table.size = _
    rw [size_modify, size_modify]
  · rw [hsegment k hk, if_pos rfl]
    rfl

theorem WritesTo.giveUp {k : Handle} (hw : s.WritesTo s' k) (hsize : s'.table.size = s.table.size)
    (cause : DiskError) : s.WritesTo (s'.giveUp k cause).2 k := by
  refine { hw with same := fun j hj => ?_ }
  have hj' : j < s'.table.size := by rw [hsize]; exact hj
  obtain ⟨hfile, heq⟩ := hw.same j hj
  by_cases hjk : j = k
  · subst hjk
    rw [segment_giveUp hj']
    exact ⟨⟨hfile.name, hfile.path, hfile.file, hfile.capacity⟩, fun hne => absurd rfl hne⟩
  · have hsame : (s'.giveUp k cause).2.segment j = s'.segment j := segment_modify_ne _ hjk
    rw [hsame]
    exact ⟨hfile, heq⟩

/-- A whole frame behind the whole frames of the last active segment is one record more. -/
theorem Shelved.putFrame (hs : s.Shelved c [] left past held) (hsound : s'.Sound []) {k : Handle}
    (hk : s.tail? = some k) (hunsealed : (s.segment k).sealed = false) (hw : s.WritesTo s' k)
    {payload : Bytes} (hpayload : Frame.Framable payload)
    (hcontent : s'.disk.content (s.segment k).file =
      s.disk.content (s.segment k).file ++ Frame.ofPayload payload)
    (hcursor : (s'.segment k).cursor =
      (s.segment k).cursor + (Frame.ofPayload payload).length) :
    s'.Shelved c [] left past (held ++ [(⟨(s.segment k).id, (s.segment k).cursor⟩, payload)]) := by
  have hactive := mem_of_tail? hk
  have hwhole := hs.whole k (List.mem_append_left _ hactive) hunsealed
  have hwhole' := hwhole.put hpayload (hw.same k (hs.known_active hactive)).1.file hcontent hcursor
  obtain ⟨payloads, hall, hholds, hend⟩ := hwhole
  have hclean : Tail.Describes .clean [] := rfl
  have hall' : ∀ x ∈ payloads ++ [payload], Frame.Framable x := by
    intro x hx
    rcases List.mem_append.mp hx with hx | hx
    · exact hall x hx
    · rw [List.mem_singleton.mp hx]
      exact hpayload
  have hafter : s'.disk.content (s.segment k).file = Frame.spell (payloads ++ [payload]) := by
    rw [hcontent, hholds, Frame.spell_append, Frame.spell_singleton]
  refine hs.put hsound hk hw ?_ fun _ => hwhole'
  rw [Disk.recordsOf_spell (v := s.volume k) hall hclean (hholds.trans (List.append_nil _).symm),
    Disk.recordsOf_spell (v := s.volume k) hall' hclean (hafter.trans (List.append_nil _).symm),
    Frame.layOut_append, positioned_append, hend, Nat.zero_add]
  rfl

/-- A torn frame behind the whole frames of the last active segment adds nothing, if nothing is
written behind it. -/
theorem Shelved.putTorn (hs : s.Shelved c [] left past held) (hsound : s'.Sound []) {k : Handle}
    (hk : s.tail? = some k) (hunsealed : (s.segment k).sealed = false) (hw : s.WritesTo s' k)
    {payload torn : Bytes} (hpayload : Frame.Framable payload)
    (hfront : torn <+: Frame.ofPayload payload)
    (hshort : torn.length < (Frame.ofPayload payload).length)
    (hcontent : s'.disk.content (s.segment k).file =
      s.disk.content (s.segment k).file ++ torn)
    (hsealed : (s'.segment k).sealed = true) : s'.Shelved c [] left past held := by
  have hactive := mem_of_tail? hk
  have hwhole := hs.whole k (List.mem_append_left _ hactive) hunsealed
  have hput : s'.Shelved c [] left past (held ++ []) := by
    refine hs.put hsound hk hw ?_ fun hopen => ?_
    · simp only [Disk.recordsOf, volume]
      rw [hcontent, hwhole.records_torn hpayload hfront hshort, List.append_nil]
    · rw [hsealed] at hopen
      cases hopen
  rw [List.append_nil] at hput
  exact hput

/-- The write of a frame behind whole frames adds its record, or it fails and leaves a torn frame
there, behind which nothing more is written. -/
theorem Shelved.write (hs : s.Shelved c [] left past held) {k : Handle} (hk : s.tail? = some k)
    (hunsealed : (s.segment k).sealed = false) {partitions : List Partition} {payload : Bytes}
    (hpayload : Frame.Framable payload) {r : Except DiskError Unit}
    (h : (s.modify k fun g => g.claimed partitions (Frame.ofPayload payload).length).write
      ⟨k, (s.segment k).cursor⟩ (Frame.ofPayload payload) = (r, s')) :
    r = .ok () ∧ (s'.segment k).id = (s.segment k).id ∧
        s'.Shelved c [] left past (held ++ [(⟨(s.segment k).id, (s.segment k).cursor⟩, payload)]) ∨
      ∃ cause, r = .error cause ∧ (s'.giveUp k cause).2.Shelved c [] left past held := by
  have hactive := mem_of_tail? hk
  have hknown := hs.known_active hactive
  have hfile := hs.files k hknown
  obtain ⟨hw, hsize, hcursor, hwrite⟩ := writesTo_write hknown hfile h
  have hsound : s'.Sound [] := by
    have hclaimed := hs.toSound.modify (h := k)
      (f := fun g => g.claimed partitions (Frame.ofPayload payload).length) ⟨rfl, rfl, rfl, rfl⟩
      (fun hsealed => hsealed) (.inl (hs.active_not_fresh hactive)) (.refl _) rfl
    exact hclaimed.write h (by rw [size_modify]; exact hknown) (hs.active_not_fresh hactive)
  -- the range that was claimed begins where the file ends
  have hend : (s.segment k).cursor = (s.disk.content (s.segment k).file).length := by
    obtain ⟨_, -, hholds, hend⟩ := hs.whole k (List.mem_append_left _ hactive) hunsealed
    rw [hholds, hend]
  rw [hend] at hwrite
  rcases Disk.writeAt_end_cases hwrite hfile with
    ⟨rfl, hcontent⟩ | ⟨cause, torn, rfl, hfront, hshort, hcontent⟩
  · exact .inl ⟨rfl, (hw.same k hknown).1.id,
      hs.putFrame hsound hk hunsealed hw hpayload hcontent hcursor⟩
  · have hgiven := hsound.giveUp (h := k) (by
      rw [hw.spare]
      exact hs.active_not_fresh hactive) cause
    have hsealed := segment_giveUp (k := k) (by rw [hsize]; exact hknown) cause
    exact .inr ⟨cause, rfl, hs.putTorn hgiven hk hunsealed (hw.giveUp hsize cause) hpayload hfront
      hshort hcontent (by rw [hsealed]; rfl)⟩

/-! ## Appending -/

/-- The locked part of an append adds no records; it leaves a range behind the whole frames of the
last active segment. -/
theorem Shelved.claim (hs : s.Shelved c [] left past held) {partitions : List Partition}
    {length : Nat} {r : Except LogError Claim} (h : s.claim partitions length = (r, s'))
    (hids : s'.ids.next ≠ 0) :
    (∃ e, r = .error e ∧ s'.Shelved c [] left past held) ∨
      ∃ (s₁ : Store) (k : Handle), r = .ok ⟨k, (s₁.segment k).cursor⟩ ∧
        s₁.Shelved c [] left past held ∧ s₁.tail? = some k ∧ (s₁.segment k).sealed = false ∧
        s' = s₁.modify k fun g => g.claimed partitions length := by
  obtain ⟨r₁, s₁, hf, hsame, hcase⟩ := claim_cases h
  rw [hsame] at hids
  have hs₁ := hs.segmentFor hf hids
  obtain ⟨-, -, hchosen⟩ := hs.toSound.segmentFor hf hids
  rcases hcase with ⟨e, rfl, rfl, rfl⟩ | ⟨k, rfl, ⟨cause, rfl, rfl⟩ | ⟨rfl, -, hclaimed⟩⟩
  · exact .inl ⟨e, rfl, hs₁⟩
  · exact .inl ⟨_, rfl, hs₁.report cause⟩
  · rcases hchosen with ⟨_, hr, -⟩ | ⟨_, hr, ht, hunsealed, -⟩
    · cases hr
    · cases hr
      exact .inr ⟨s₁, k, rfl, hs₁, ht, hunsealed,
        hclaimed (hs₁.known_active (mem_of_tail? ht))⟩

/-- An append whose frame is written succeeds. -/
theorem Shelved.acknowledge (hs : s.Shelved c [] left past held) {w : Claim}
    (hw : w.handle ∈ s.active) {r : Except LogError Position} (h : s.acknowledge w = (r, s')) :
    r = .ok (s.positionOf w) ∧ s'.Shelved c [] left past held := by
  obtain ⟨-, rfl, rfl⟩ | ⟨hsync, _, s₁, hr, hcase⟩ := acknowledge_cases h
  · exact ⟨rfl, hs⟩
  obtain ⟨hok, hs₁, -, hposition⟩ := hs.syncSegment hw hr
  obtain ⟨-, rfl, rfl⟩ | ⟨_, _, hfailed, -⟩ := hcase
  · exact ⟨congrArg _ (hposition w), hs₁⟩
  · rw [hok hsync] at hfailed
    cases hfailed

/-- **An append adds its record, or none.** The record of an append that succeeds stands behind all
others, at the position that is given back; an append that fails adds nothing that a replay would
apply. -/
theorem Shelved.append (hs : s.Shelved c [] left past held) {m : Mutation}
    {r : Except LogError Position} (h : s.append m = (r, s')) (hids : s'.ids.next ≠ 0) :
    (∃ e, r = .error e ∧ s'.Shelved c [] left past held) ∨
      ∃ p, r = .ok p ∧ s'.Shelved c [] left past (held ++ [(p, m.payload)]) := by
  obtain ⟨e, -, rfl, rfl⟩ | ⟨frame, granted, s₁, hframe, hclaim, hcase⟩ := append_cases h
  · exact .inl ⟨e, rfl, hs⟩
  obtain ⟨-, hpos, hle, rfl⟩ := Mutation.frame_eq_ok_iff.mp hframe
  have hpayload : Frame.Framable m.payload := ⟨hpos, Nat.le_trans hle hs.framable⟩
  obtain ⟨e, rfl, rfl, rfl⟩ | ⟨w, written, s₂, rfl, hwrite, hcase⟩ := hcase
  · obtain ⟨_, -, hs₁⟩ | ⟨_, _, hr, -⟩ := hs.claim hclaim hids
    · exact .inl ⟨e, rfl, hs₁⟩
    · cases hr
  -- an append takes no number once it has its range
  have hsame : s'.ids = s₁.ids := by
    obtain ⟨-, hack⟩ | ⟨_, _, -, -, rfl⟩ := hcase
    · exact (active_acknowledge hack).2.trans (ids_write hwrite)
    · show s₂.ids = s₁.ids
      exact ids_write hwrite
  rw [hsame] at hids
  obtain ⟨_, hr, -⟩ | ⟨s₀, k, hr, hs₀, ht, hunsealed, rfl⟩ := hs.claim hclaim hids
  · cases hr
  cases hr
  obtain ⟨rfl, hid, hs₂⟩ | ⟨cause, rfl, hs₂⟩ := hs₀.write ht hunsealed hpayload hwrite
  · obtain ⟨-, hack⟩ | ⟨_, _, hfailed, -⟩ := hcase
    · have hactive : k ∈ s₂.active := by
        obtain ⟨u, d, rfl, -⟩ := write_cases hwrite (by
          rw [size_modify]
          exact hs₀.known_active (mem_of_tail? ht))
        exact mem_of_tail? ht
      obtain ⟨rfl, hs'⟩ := hs₂.acknowledge hactive hack
      refine .inr ⟨⟨(s₂.segment k).id, (s₀.segment k).cursor⟩, rfl, ?_⟩
      rw [hid]
      exact hs'
    · cases hfailed
  · obtain ⟨hwritten, -⟩ | ⟨_, e, hcause, rfl, rfl⟩ := hcase
    · cases hwritten
    · cases hcause
      exact .inl ⟨e, rfl, hs₂⟩

end Store

end SegmentLog
