import SegmentLog.Proofs.Segment.Shelf
import SegmentLog.Proofs.Store.Claims

/-!
# Stores and their shelf

A store that is alone on its directory knows all that lies there: first what earlier stores have
left, then its own segments in their order. `Store.Shelved` says so, together with the records
that a replay of each would apply. Every segment that is not sealed holds whole frames up to its
cursor, so that the next frame goes where a replay will find it.

* `Shelved.evolves` — most of what a store does changes nothing of all this;
* `Shelved.newSegment`, `Shelved.rollOver`, `Shelved.segmentFor` — new segments add no records;
* `Shelved.takeAway` — the removal of a segment takes its records away and no others.
-/

namespace SegmentLog

/-- With settings that make sense, every payload that is not too large can be framed. -/
theorem Settings.maxPayload_le_of_check {c : Settings} (h : c.check = .ok ()) :
    c.maxPayload ≤ Frame.maxSize := by
  obtain ⟨-, hlarge, -⟩ := (check_eq_ok_iff c).mp h
  unfold maxPayload Frame.maxPayload Frame.maxSize
  unfold maxSegmentSize at hlarge
  omega

namespace Store

/-- A segment as a volume. -/
def volume (s : Store) (h : Handle) : Volume := ⟨(s.segment h).id, (s.segment h).file⟩

/-- The segments of a store, with those that have no place yet. -/
def own (s : Store) (loose : List Handle) : List Handle := s.active ++ (s.spare.toList ++ loose)

/-- What earlier stores have left, and the segments of a store. -/
def shelf (s : Store) (loose : List Handle) (left : List Volume) : List Volume :=
  left ++ (s.own loose).map s.volume

/-- Whether a segment holds whole frames up to its cursor, and nothing else. -/
def Whole (s : Store) (h : Handle) : Prop :=
  ∃ payloads, (∀ x ∈ payloads, Frame.Framable x) ∧
    s.disk.content (s.segment h).file = Frame.spell payloads ∧
    (s.segment h).cursor = (Frame.spell payloads).length

/-- Whether the directory of a store of some settings holds just what earlier stores have left and
the segments of the store, with just the records `past` in the former and `held` in the latter. -/
structure Shelved (s : Store) (c : Settings) (loose : List Handle) (left : List Volume)
    (past held : List (Position × Bytes)) : Prop extends Sound s loose where
  settings : s.settings = c
  checked : c.check = .ok ()
  stem : '/' ∉ s.settings.stem.toList
  shelves : s.disk.Shelves s.settings.directory s.settings.stem (s.shelf loose left)
  older : ∀ v ∈ left, v.id < s.ids.next
  past : s.disk.stored left = past
  held : s.disk.stored ((s.own loose).map s.volume) = held
  whole : ∀ h ∈ s.own loose, (s.segment h).sealed = false → s.Whole h
  removable : ∀ f ∈ s.disk.faults.remove, f = none
  syncable : s.settings.sync = .eachAppend → ∀ f ∈ s.disk.faults.sync, f = none

variable {s s' : Store} {c : Settings} {loose loose' : List Handle} {left : List Volume}
  {past held : List (Position × Bytes)}

theorem volume_eq {k : Handle} (h : (s.segment k).SameFile (s'.segment k)) :
    s'.volume k = s.volume k := by
  rw [volume, volume, h.id, h.file]

theorem Sound.known_own (hs : s.Sound loose) {h : Handle} (hh : h ∈ s.own loose) :
    h < s.table.size := hs.known h hh

theorem Shelved.known_left (hs : s.Shelved c loose left past held) {v : Volume} (hv : v ∈ left) :
    v.file < s.disk.files.size := hs.shelves.known v (List.mem_append_left _ hv)

/-- Every payload that a store takes in can be framed. -/
theorem Shelved.framable (hs : s.Shelved c loose left past held) :
    s.maxPayload ≤ Frame.maxSize := by
  rw [maxPayload, hs.settings]
  exact Settings.maxPayload_le_of_check hs.checked

theorem not_sealed_of_mono {g g' : Segment} (h : g.sealed = true → g'.sealed = true)
    (hg : g'.sealed = false) : g.sealed = false := by
  by_contra hc
  rw [h (Bool.not_eq_false _ ▸ hc)] at hg
  cases hg

theorem Whole.of_same {k : Handle} (hw : s.Whole k)
    (hfile : (s'.segment k).file = (s.segment k).file)
    (hcursor : (s'.segment k).cursor = (s.segment k).cursor)
    (hcontent : s'.disk.content (s.segment k).file = s.disk.content (s.segment k).file) :
    s'.Whole k := by
  obtain ⟨payloads, hframable, hholds, hlen⟩ := hw
  refine ⟨payloads, hframable, ?_, hcursor.trans hlen⟩
  rw [hfile, hcontent]
  exact hholds

/-- A whole frame behind whole frames is one more of them. -/
theorem Whole.put {k : Handle} (hw : s.Whole k) {payload : Bytes}
    (hpayload : Frame.Framable payload)
    (hfile : (s'.segment k).file = (s.segment k).file)
    (hcontent : s'.disk.content (s.segment k).file =
      s.disk.content (s.segment k).file ++ Frame.ofPayload payload)
    (hcursor : (s'.segment k).cursor =
      (s.segment k).cursor + (Frame.ofPayload payload).length) : s'.Whole k := by
  obtain ⟨payloads, hall, hholds, hend⟩ := hw
  have hspell : Frame.spell (payloads ++ [payload]) =
      Frame.spell payloads ++ Frame.ofPayload payload := by
    rw [Frame.spell_append, Frame.spell_singleton]
  refine ⟨payloads ++ [payload], fun x hx => ?_, ?_, ?_⟩
  · rcases List.mem_append.mp hx with hx | hx
    · exact hall x hx
    · rw [List.mem_singleton.mp hx]
      exact hpayload
  · rw [hfile, hcontent, hholds, hspell]
  · rw [hcursor, hend, hspell, List.length_append]

/-- A torn frame behind whole frames adds no record. -/
theorem Whole.records_torn {k : Handle} (hw : s.Whole k) {payload torn : Bytes}
    (hpayload : Frame.Framable payload) (hfront : torn <+: Frame.ofPayload payload)
    (hshort : torn.length < (Frame.ofPayload payload).length) :
    (Scan.ofBytes (s.disk.content (s.segment k).file ++ torn)).records =
      (Scan.ofBytes (s.disk.content (s.segment k).file)).records := by
  obtain ⟨payloads, hall, hholds, -⟩ := hw
  rw [hholds]
  exact Scan.records_spell_torn hall hpayload hfront hshort

/-- What leaves the segments and the tree alone changes nothing of what a store knows. -/
theorem Shelved.of_same (hs : s.Shelved c loose left past held) (hsound : s'.Sound loose')
    (hown : s'.own loose' = s.own loose) (hsettings : s'.settings = s.settings)
    (hids : s.ids.next ≤ s'.ids.next)
    (hsame : ∀ k < s.table.size, (s.segment k).SameFile (s'.segment k) ∧
      (s'.segment k).cursor = (s.segment k).cursor ∧
      ((s.segment k).sealed = true → (s'.segment k).sealed = true))
    (htree : Disk.SameTree s.disk s'.disk) (hfiles : s.disk.files.size ≤ s'.disk.files.size)
    (hcontent : ∀ f < s.disk.files.size, s'.disk.content f = s.disk.content f)
    (hfaults : Faults.Within s.disk.faults s'.disk.faults) :
    s'.Shelved c loose' left past held := by
  have hvolumes : (s'.own loose').map s'.volume = (s.own loose).map s.volume := by
    rw [hown]
    exact List.map_congr_left fun k hk => volume_eq (hsame k (hs.known_own hk)).1
  have hshelf : s'.shelf loose' left = s.shelf loose left := by rw [shelf, shelf, hvolumes]
  refine {
    toSound := hsound
    settings := hsettings.trans hs.settings
    checked := hs.checked
    stem := by rw [hsettings]; exact hs.stem
    shelves := by rw [hsettings, hshelf]; exact hs.shelves.of_tree htree hfiles
    older := fun v hv => UInt64.lt_of_lt_of_le (hs.older v hv) hids
    past := ?_
    held := ?_
    whole := fun h hh hunsealed => ?_
    removable := fun f hf => hs.removable f (hfaults.remove f hf)
    syncable := fun hsync f hf => hs.syncable (hsettings ▸ hsync) f (hfaults.sync f hf) }
  · rw [Disk.stored_congr fun v hv => hcontent _ (hs.known_left hv)]
    exact hs.past
  · rw [hvolumes, Disk.stored_congr fun v hv => hcontent _ (hs.shelves.known v
      (List.mem_append_right _ hv))]
    exact hs.held
  · rw [hown] at hh
    have hk := hs.known_own hh
    obtain ⟨hfile, hcursor, hsealed⟩ := hsame h hk
    exact (hs.whole h hh (not_sealed_of_mono hsealed hunsealed)).of_same hfile.file hcursor
      (hcontent _ (hs.files h hk))

/-- An evolution in which no file comes or goes. -/
theorem Shelved.evolves (hs : s.Shelved c loose left past held) (hsound : s'.Sound loose')
    (he : Evolves s s') (hown : s'.own loose' = s.own loose) (hids : s.ids.next ≤ s'.ids.next)
    (htree : Disk.SameTree s.disk s'.disk) : s'.Shelved c loose' left past held :=
  hs.of_same hsound hown he.settings hids
    (fun k hk => ⟨(he.old k hk).toSameFile, (he.old k hk).cursor, (he.old k hk).sealed⟩)
    htree he.files he.content he.faults

theorem Shelved.keepIdsAbove (hs : s.Shelved c loose left past held) (id : SegmentId) :
    (s.keepIdsAbove id).Shelved c loose left past held :=
  hs.evolves (hs.toSound.keepIdsAbove id) (.of_eq rfl rfl rfl) rfl (s.ids.next_le_keepAbove id)
    (.refl _)

theorem Shelved.report (hs : s.Shelved c loose left past held) (cause : IoError) :
    (s.report cause).2.Shelved c loose left past held :=
  hs.evolves (hs.toSound.report cause) (.of_eq rfl rfl rfl) rfl (UInt64.le_refl _) (.refl _)

theorem Shelved.giveUp (hs : s.Shelved c loose left past held) {h : Handle} (hh : h ∈ s.active)
    (cause : DiskError) : (s.giveUp h cause).2.Shelved c loose left past held :=
  hs.evolves (hs.toSound.giveUp (hs.active_not_fresh hh) cause) (evolves_giveUp s h cause) rfl
    (UInt64.le_refl _) (.refl _)

/-- A flush changes nothing of any segment but its marks. -/
theorem Shelved.noteFlush (hs : s.Shelved c loose left past held) (h : Handle) (p : Partition)
    (upTo : Position) : (s.noteFlush h p upTo).Shelved c loose left past held := by
  refine hs.of_same (hs.toSound.noteFlush h p upTo) rfl rfl (UInt64.le_refl _) (fun k _ => ?_)
    (.refl _) (Nat.le_refl _) (fun _ _ => rfl) (.refl _)
  obtain ⟨marks, hflush⟩ := s.segment_noteFlush_marks h k p upTo
  rw [hflush]
  exact ⟨⟨rfl, rfl, rfl, rfl⟩, rfl, fun hc => hc⟩

/-- A sync of a segment changes nothing else, and does not fail where every append is synced. -/
theorem Shelved.syncSegment (hs : s.Shelved c loose left past held) {h : Handle} (hh : h ∈ s.active)
    {force : Bool} {r : Except DiskError Unit} (hr : s.syncSegment h force = (r, s')) :
    (s.settings.sync = .eachAppend → r = .ok ()) ∧ s'.Shelved c loose left past held ∧
      s'.active = s.active ∧ ∀ c : Claim, s'.positionOf c = s.positionOf c := by
  have hsound := hs.toSound.syncSegment (hs.active_not_fresh hh) hr
  have hevolves := evolves_syncSegment hr
  obtain ⟨u, d, rfl, htree, -, -, -, hok⟩ := syncSegment_cases hr
  refine ⟨fun hsync => hok (Faults.next?_eq_none (hs.syncable hsync)),
    hs.evolves hsound hevolves rfl (UInt64.le_refl _) htree, rfl, fun c => ?_⟩
  have hk := hs.known_active hh
  by_cases hc : c.handle = h
  · subst hc
    show (⟨((s.modify c.handle _).segment c.handle).id, c.offset⟩ : Position) = _
    rw [segment_modify_self _ hk]
    rfl
  · show (⟨((s.modify h _).segment c.handle).id, c.offset⟩ : Position) = _
    rw [segment_modify_ne _ hc]
    rfl

/-- A segment in which nothing was claimed yet holds no records. -/
theorem Shelved.recordsOf_fresh (hs : s.Shelved c loose left past held) {k : Handle}
    (hk : k ∈ s.spare.toList ++ loose) : s.disk.recordsOf (s.volume k) = [] := by
  obtain ⟨hblank, hunsealed⟩ := hs.fresh k hk
  obtain ⟨payloads, -, hholds, hlen⟩ := hs.whole k (List.mem_append_right _ hk) hunsealed
  refine Disk.recordsOf_of_empty (hholds.trans ?_)
  exact List.length_eq_zero_iff.mp (hlen.symm.trans hblank.cursor)

theorem Shelved.stored_fresh (hs : s.Shelved c loose left past held) :
    s.disk.stored ((s.spare.toList ++ loose).map s.volume) = [] := by
  unfold Disk.stored
  rw [List.flatMap_map, List.flatMap_eq_nil_iff]
  exact fun k hk => hs.recordsOf_fresh hk

/-- All records of a store are in its active segments. -/
theorem Shelved.held_active (hs : s.Shelved c loose left past held) :
    s.disk.stored (s.active.map s.volume) = held := by
  have hall := hs.held
  rw [own, List.map_append, Disk.stored_append, hs.stored_fresh, List.append_nil] at hall
  exact hall

/-! ## New segments -/

theorem own_cons (s : Store) (k : Handle) : s.own [k] = s.own [] ++ [k] := by
  simp [own]

/-- A segment that was just created stands behind all the others, and holds no records. -/
theorem Shelved.push (hs : s.Shelved c [] left past held) (hsound : s'.Sound [s.table.size])
    (hevolves : s.Evolves s') (hown : s'.own [] = s.own []) (hnext : s.ids.next < s'.ids.next)
    {g : Segment} (htable : s'.table = s.table.push g) (hid : g.id = s.ids.next)
    (hfile : g.file = s.disk.files.size) (hcursor : g.cursor = 0) {q : Place} {n : FileName}
    (hq : s.disk.locate ((SegmentName.ofId s.ids.next).pathIn s.settings.directory
      s.settings.stem) = .ok q)
    (hn : q.name = some n) (hattached : Disk.Attached s.disk s'.disk q.way.here n) :
    s'.Shelved c [s.table.size] left past held := by
  have hnew : s'.segment s.table.size = g := by rw [segment_push htable, if_pos rfl]
  have hvolume : s'.volume s.table.size = ⟨s.ids.next, s.disk.files.size⟩ := by
    rw [volume, hnew, hid, hfile]
  have hold : ∀ k ∈ s.own [], s'.volume k = s.volume k :=
    fun k hk => volume_eq (hevolves.old k (hs.known_own hk)).toSameFile
  have hvolumes : (s'.own [s.table.size]).map s'.volume =
      (s.own []).map s.volume ++ [⟨s.ids.next, s.disk.files.size⟩] := by
    rw [own_cons, hown, List.map_append, List.map_singleton, hvolume, List.map_congr_left hold]
  have hshelf : s'.shelf [s.table.size] left =
      s.shelf [] left ++ [⟨s.ids.next, s.disk.files.size⟩] := by
    rw [shelf, shelf, hvolumes, List.append_assoc]
  have hcontent : ∀ v ∈ s.shelf [] left, s'.disk.content v.file = s.disk.content v.file :=
    fun v hv => hevolves.content _ (hs.shelves.known v hv)
  refine {
    toSound := hsound
    settings := hevolves.settings.trans hs.settings
    checked := hs.checked
    stem := by rw [hevolves.settings]; exact hs.stem
    shelves := ?_
    older := fun v hv => UInt64.lt_trans (hs.older v hv) hnext
    past := ?_
    held := ?_
    whole := fun k hk hunsealed => ?_
    removable := fun f hf => hs.removable f (hevolves.faults.remove f hf)
    syncable := fun hsync f hf =>
      hs.syncable (hevolves.settings ▸ hsync) f (hevolves.faults.sync f hf) }
  · rw [hshelf, hevolves.settings]
    refine hs.shelves.attach hs.disk hs.stem hattached hq hn rfl fun u hu => ?_
    rcases List.mem_append.mp hu with hu | hu
    · exact hs.older u hu
    · obtain ⟨k, hk, rfl⟩ := List.mem_map.mp hu
      exact hs.below k (hs.known_own hk)
  · exact (Disk.stored_congr fun v hv => hcontent v (List.mem_append_left _ hv)).trans hs.past
  · have hempty : s'.disk.recordsOf ⟨s.ids.next, s.disk.files.size⟩ = [] :=
      Disk.recordsOf_of_empty (by rw [hattached.content, if_pos rfl])
    have hkept := Disk.stored_congr fun v hv => hcontent v (List.mem_append_right _ hv)
    rw [hvolumes, Disk.stored_append, hkept, Disk.stored_cons, hempty, hs.held]
    exact List.append_nil _
  · rw [own_cons, hown] at hk
    rcases List.mem_append.mp hk with hk | hk
    · have hkeeps := hevolves.old k (hs.known_own hk)
      exact (hs.whole k hk (not_sealed_of_mono hkeeps.sealed hunsealed)).of_same hkeeps.file
        hkeeps.cursor (hevolves.content _ (hs.files k (hs.known_own hk)))
    · rw [List.mem_singleton.mp hk]
      refine ⟨[], fun _ hx => (nomatch hx), ?_, ?_⟩
      · rw [hnew, hfile, hattached.content, if_pos rfl]
        rfl
      · rw [hnew, hcursor]
        rfl

/-- A new segment stands behind all the others, and holds no records; or there is none, and nothing
has changed. -/
theorem Shelved.newSegment (hs : s.Shelved c [] left past held) {r : Except DiskError Handle}
    (h : s.newSegment = (r, s')) (hids : s'.ids.next ≠ 0) :
    s'.active = s.active ∧ s'.spare = s.spare ∧
      ((∃ e, r = .error e ∧ s'.Shelved c [] left past held) ∨
        ∃ k, r = .ok k ∧ s'.Shelved c [k] left past held ∧ ∀ h ∈ s.own [], h < k) := by
  have hevolves := evolves_newSegment h
  have hnext : s.ids.next < s.ids.take.2.next := by
    obtain ⟨d, -, ⟨e, -, rfl, -⟩ | ⟨g, q, n, -, rfl, -⟩⟩ := newSegment_cases h <;>
      exact IdSource.next_lt_take hids
  obtain ⟨hactive, hspare, hcase⟩ := hs.toSound.newSegment h hids
  refine ⟨hactive, hspare, ?_⟩
  have hown : s'.own [] = s.own [] := by rw [own, own, hactive, hspare]
  obtain ⟨d, -, ⟨e, rfl, rfl, htree, -⟩ | ⟨g, q, n, rfl, rfl, rfl, hq, hn, hattached⟩⟩ :=
    newSegment_cases h
  · rcases hcase with ⟨_, -, -, hsound⟩ | ⟨hr, -⟩
    · exact .inl ⟨e, rfl, hs.evolves hsound hevolves hown (UInt64.le_of_lt hnext) htree⟩
    · cases hr
  · rcases hcase with ⟨_, hr, -⟩ | ⟨-, -, hsound⟩
    · cases hr
    · exact .inr ⟨_, rfl, hs.push hsound hevolves hown hnext rfl rfl rfl rfl hq hn hattached,
        fun k hk => hs.known_own hk⟩

/-- The spare that is taken is a segment without a place. -/
theorem Shelved.takeSpare (hs : s.Shelved c [] left past held) {k : Handle}
    (hk : s.spare = some k) :
    Shelved { s with spare := none } c [k] left past held := by
  refine hs.evolves (hs.toSound.takeSpare hk) (.of_eq rfl rfl rfl) ?_ (UInt64.le_refl _) (.refl _)
  rw [own, own, hk]
  rfl

/-- A segment without a place that is made the last active one stays where it was on the shelf. -/
theorem Shelved.activate {k : Handle} (hs : s.Shelved c [k] left past held) (hnone : s.spare = none)
    (hlast : ∀ h ∈ s.active, h < k) : (s.activate k).Shelved c [] left past held := by
  obtain ⟨hsound, hactive, hspare, hids, -, -⟩ := hs.toSound.activate hnone hlast
  refine hs.evolves hsound (evolves_activate s k) ?_ (by rw [hids]; exact UInt64.le_refl _) ?_
  · rw [own, own, hactive, hspare, hnone]
    exact List.append_assoc s.active [k] []
  · obtain ⟨s₁, mail, he, ⟨-, rfl⟩ | ⟨t, -, rfl⟩⟩ := activate_eq s k
    · rw [he]
      exact .refl _
    · rw [he]
      exact .refl _

/-- A new last segment adds no records. -/
theorem Shelved.rollOver (hs : s.Shelved c [] left past held) {r : Except LogError Handle}
    (h : s.rollOver = (r, s')) (hids : s'.ids.next ≠ 0) : s'.Shelved c [] left past held := by
  rcases hs.toSound.rollOver_cases h with ⟨k, hspare, hlast, rfl, rfl⟩ |
    ⟨hspare, made, s₁, hn, ⟨e, rfl, rfl, rfl⟩ | ⟨k, rfl, rfl, rfl⟩⟩
  · exact (hs.takeSpare hspare).activate rfl hlast
  · obtain ⟨-, -, ⟨_, -, hs₁⟩ | ⟨_, hr, -⟩⟩ := hs.newSegment hn hids
    · exact hs₁.report _
    · cases hr
  · have hids₁ : s₁.ids.next ≠ 0 := by
      rw [← ids_activate s₁ k]
      exact hids
    obtain ⟨hactive, hspare₁, ⟨_, hr, -⟩ | ⟨_, hr, hs₁, hlast⟩⟩ := hs.newSegment hn hids₁
    · cases hr
    · cases hr
      refine hs₁.activate (hspare₁.trans hspare) fun g hg => hlast g ?_
      rw [hactive] at hg
      exact List.mem_append_left _ hg

theorem Shelved.segmentFor (hs : s.Shelved c [] left past held) {length : Nat}
    {r : Except LogError Handle} (h : s.segmentFor length = (r, s')) (hids : s'.ids.next ≠ 0) :
    s'.Shelved c [] left past held := by
  rcases segmentFor_cases h with ⟨k, -, -, -, rfl⟩ | h
  · exact hs
  · exact hs.rollOver h hids

/-! ## Segments that go -/

/-- The numbers of the segments of a store are distinct. -/
theorem Shelved.distinct_own (hs : s.Shelved c loose left past held) :
    (((s.own loose).map s.volume).map (·.id)).Nodup := by
  have hascending := (List.pairwise_append.mp hs.shelves.ascending).2.1
  exact List.pairwise_map.mpr (hascending.imp fun h => UInt64.ne_of_lt h.1)

/-- The path of a segment is that of its volume. -/
theorem Filed.path_eq (hs : s.Filed) {k : Handle} (hk : k < s.table.size) :
    (s.segment k).path = (s.volume k).path s.settings.directory s.settings.stem := by
  rw [hs.placed k hk, hs.named k hk]
  rfl

/-- The removal of a file keeps what is stored in the volumes that stay. -/
theorem Shelved.of_remove (hs : s.Shelved c loose left past held) {p : Path}
    {r : Except DiskError Unit} {d : Disk} (hr : s.disk.remove p = (r, d))
    (hfiles : d.files = s.disk.files) {active : List Handle} {spare : Option Handle}
    {left' : List Volume} (hsound : Sound { s with active, spare, disk := d } loose')
    (hshelves : d.Shelves s.settings.directory s.settings.stem
      (shelf { s with active, spare, disk := d } loose' left'))
    (hleft : ∀ v ∈ left', v ∈ left)
    (hown : ∀ k ∈ own { s with active, spare, disk := d } loose', k ∈ s.own loose) :
    Shelved { s with active, spare, disk := d } c loose' left' (s.disk.stored left')
      (s.disk.stored ((own { s with active, spare, disk := d } loose').map s.volume)) := by
  have hfaults := (Disk.remove_cases hr).1
  have hcontent : ∀ f, d.content f = s.disk.content f := Disk.content_of_files hfiles
  refine {
    toSound := hsound
    settings := hs.settings
    checked := hs.checked
    stem := hs.stem
    shelves := hshelves
    older := fun v hv => hs.older v (hleft v hv)
    past := Disk.stored_congr fun v _ => hcontent v.file
    held := Disk.stored_congr fun v _ => hcontent v.file
    whole := fun k hk hunsealed => (hs.whole k (hown k hk) hunsealed).of_same rfl rfl (hcontent _)
    removable := fun f hf => ?_
    syncable := fun hsync f hf => ?_ }
  · rw [hfaults] at hf
    exact hs.removable f (List.mem_of_mem_tail hf)
  · rw [hfaults] at hf
    exact hs.syncable hsync f hf

/-- The removal of the file of a segment leaves what is stored in the other segments. -/
theorem Shelved.takeAway (hs : s.Shelved c loose left past held) {xs ys : List Handle} {k : Handle}
    (hown : s.own loose = xs ++ k :: ys) {r : Except DiskError Unit} {d : Disk}
    (hr : s.disk.remove (s.segment k).path = (r, d)) {active : List Handle} {spare : Option Handle}
    (hsound : Sound { s with active, spare, disk := d } loose')
    (hrest : own { s with active, spare, disk := d } loose' = xs ++ ys) :
    r = .ok () ∧ Shelved { s with active, spare, disk := d } c loose' left past
      (s.disk.stored ((xs ++ ys).map s.volume)) := by
  have hk : k < s.table.size :=
    hs.known_own (by rw [hown]; exact List.mem_append_right _ List.mem_cons_self)
  have hsplit : s.shelf loose left =
      (left ++ xs.map s.volume) ++ s.volume k :: ys.map s.volume := by
    rw [shelf, hown, List.map_append, List.map_cons, List.append_assoc]
  have hjoin : (left ++ xs.map s.volume) ++ ys.map s.volume =
      shelf { s with active, spare, disk := d } loose' left := by
    rw [shelf, hrest, List.append_assoc, ← List.map_append]
    rfl
  have hshelves := hs.shelves
  rw [hs.filed.path_eq hk] at hr
  rw [hsplit] at hshelves
  obtain ⟨hok, -, hfiles, hshelves'⟩ :=
    hshelves.remove hs.disk hs.stem (Faults.next?_eq_none hs.removable) hr
  rw [hjoin] at hshelves'
  have hs' := hs.of_remove hr hfiles hsound hshelves' (fun _ hv => hv) fun j hj => by
    rw [hrest] at hj
    rw [hown]
    exact ((List.Sublist.refl xs).append (List.sublist_cons_self k ys)).subset hj
  rw [hs.past, hrest] at hs'
  exact ⟨hok, hs'⟩

end Store

end SegmentLog
