import SegmentLog.Proofs.Store.Housed

/-!
# Stores in order

`Store.Sound` is what holds of a store at every moment, with the segments that were made and not
yet put into a place counted apart: numbers, files and handles ascend together; the active
segments and the spare stand in the order in which they were made; every active segment but the
last is sealed; the spare and the loose segments are as they were made; and the file of each of
them is where its path leads.

* `Sound.modify` — what is done to one segment in use keeps a store in order;
* `Catalogued.file_ne`, `Catalogued.name_ne` — no two segments share a file or a name;
* `sound_onDirectory` — a store that was just opened is in order.
-/

namespace SegmentLog

/-! ## Numbers -/

namespace IdSource

theorem next_lt_take {s : IdSource} (h : s.take.2.next ≠ 0) : s.next < s.take.2.next := by
  have hne : (s.next + 1).toNat ≠ 0 := fun h0 => h (UInt64.toNat_inj.mp h0)
  have hlt := s.next.toNat_lt
  show s.next < s.next + 1
  rw [UInt64.toNat_add, UInt64.toNat_one] at hne
  rw [UInt64.lt_iff_toNat_lt, UInt64.toNat_add, UInt64.toNat_one]
  omega

theorem next_le_keepAbove (s : IdSource) (id : SegmentId) : s.next ≤ (s.keepAbove id).next := by
  have hmax : ∀ x : UInt64, s.next ≤ max s.next x := by
    intro x
    rw [UInt64.max_def]
    split
    · assumption
    · exact UInt64.le_refl _
  exact hmax _

theorem next_le_foldl (found : List (SegmentName × Path)) (s : IdSource) :
    s.next ≤ (found.foldl (fun s e => s.keepAbove e.1.id) s).next := by
  induction found generalizing s with
  | nil => exact UInt64.le_refl _
  | cons e rest ih => exact UInt64.le_trans (s.next_le_keepAbove e.1.id) (ih _)

theorem lt_keepAbove (s : IdSource) {id top : SegmentId} (h : id < top) :
    id < (s.keepAbove id).next := by
  rw [UInt64.lt_iff_toNat_lt] at h
  have htop := top.toNat_lt
  have hne : id ≠ 0xFFFFFFFFFFFFFFFF := by
    rintro rfl
    rw [show (0xFFFFFFFFFFFFFFFF : UInt64).toNat = 2 ^ 64 - 1 from rfl] at h
    omega
  have hnext : id < id + 1 := by
    rw [UInt64.lt_iff_toNat_lt, UInt64.toNat_add, UInt64.toNat_one]
    omega
  rw [keepAbove, if_neg hne, UInt64.max_def]
  split
  · exact hnext
  · rename_i hle
    exact UInt64.lt_trans hnext (UInt64.not_le.mp hle)

end IdSource

namespace Store

/-! ## The table of segments -/

/-- Whether the segments of a store are in its table as they were made. -/
structure Catalogued (s : Store) : Prop where
  disk : s.disk.WellFormed
  positive : 0 < s.ids.next
  named : ∀ h < s.table.size, (s.segment h).name = .ofId (s.segment h).id
  placed : ∀ h < s.table.size, (s.segment h).path =
    (s.segment h).name.pathIn s.settings.directory s.settings.stem
  above : ∀ h < s.table.size, 0 < (s.segment h).id
  below : ∀ h < s.table.size, (s.segment h).id < s.ids.next
  ascending : ∀ g h, g < h → h < s.table.size → (s.segment g).id < (s.segment h).id
  files : ∀ h < s.table.size, (s.segment h).file < s.disk.files.size
  apart : ∀ g h, g < h → h < s.table.size → (s.segment g).file < (s.segment h).file

variable {s s' : Store} {loose : List Handle}

theorem Catalogued.filed (hs : s.Catalogued) : s.Filed :=
  ⟨hs.disk, hs.named, hs.placed, hs.files, hs.apart⟩

theorem Catalogued.of_same (hs : s.Catalogued) (hsettings : s'.settings = s.settings)
    (hsize : s'.table.size = s.table.size)
    (hsame : ∀ k < s.table.size, (s.segment k).SameFile (s'.segment k))
    (hids : s.ids.next ≤ s'.ids.next) (hdisk : s'.disk.WellFormed)
    (hfiles : s.disk.files.size ≤ s'.disk.files.size) : s'.Catalogued where
  __ := hs.filed.of_same hsettings hsize hsame hdisk hfiles
  positive := UInt64.lt_of_lt_of_le hs.positive hids
  above h hh := by
    rw [hsize] at hh
    rw [(hsame h hh).id]
    exact hs.above h hh
  below h hh := by
    rw [hsize] at hh
    rw [(hsame h hh).id]
    exact UInt64.lt_of_lt_of_le (hs.below h hh) hids
  ascending g h hgh hh := by
    rw [hsize] at hh
    rw [(hsame h hh).id, (hsame g (Nat.lt_trans hgh hh)).id]
    exact hs.ascending g h hgh hh

theorem Catalogued.id_lt_iff (hs : s.Catalogued) {g h : Handle} (hg : g < s.table.size)
    (hh : h < s.table.size) : (s.segment g).id < (s.segment h).id ↔ g < h := by
  constructor
  · intro hid
    rcases Nat.lt_trichotomy g h with hlt | rfl | hgt
    · exact hlt
    · exact absurd hid (UInt64.lt_irrefl _)
    · exact absurd hid (UInt64.lt_asymm (hs.ascending h g hgt hg))
  · exact fun hlt => hs.ascending g h hlt hh

theorem Catalogued.name_ne (hs : s.Catalogued) {g h : Handle} (hg : g < s.table.size)
    (hh : h < s.table.size) (hne : g ≠ h) : (s.segment g).name ≠ (s.segment h).name := by
  intro he
  have hid : (s.segment g).id = (s.segment h).id := by rw [Segment.id, he, Segment.id]
  rcases Nat.lt_or_gt_of_ne hne with hlt | hgt
  · have := hs.ascending g h hlt hh
    rw [hid] at this
    exact UInt64.lt_irrefl _ this
  · have := hs.ascending h g hgt hg
    rw [hid] at this
    exact UInt64.lt_irrefl _ this

theorem Catalogued.file_ne (hs : s.Catalogued) {g h : Handle} (hg : g < s.table.size)
    (hh : h < s.table.size) (hne : g ≠ h) : (s.segment g).file ≠ (s.segment h).file :=
  hs.filed.file_ne hg hh hne

/-- The removal of the file of one segment leaves those of the others where they are. -/
theorem Found.remove {g h : Handle} (hf : s.Found h) (hs : s.Catalogued) (hg : g < s.table.size)
    (hh : h < s.table.size) (hne : g ≠ h) {r : Except DiskError Unit} {d : Disk}
    (hr : s.disk.remove (s.segment g).path = (r, d)) : Found { s with disk := d } h := by
  refine hf.remove_elsewhere hr fun q q' id hq hq' hsame => ?_
  -- one place in the directory would belong to two segments
  have hlocate := (Disk.find_eq_ok_iff.mp hq).1
  have hlocate' := (Disk.find_eq_ok_iff.mp hq').1
  rw [hs.placed h hh] at hlocate
  rw [hs.placed g hg] at hlocate'
  exact hs.name_ne hg hh hne (SegmentName.eq_of_same_place hlocate' hlocate hsame.2.symm)

/-! ## Stores in order -/

/-- Whether a store is in order, with some segments that were made and have no place yet. -/
structure Sound (s : Store) (loose : List Handle) : Prop extends Catalogued s where
  order : (s.active ++ s.spare.toList).Pairwise (· < ·)
  distinct : loose.Nodup
  outside : ∀ h ∈ loose, h ∉ s.active ++ s.spare.toList
  known : ∀ h ∈ s.active ++ (s.spare.toList ++ loose), h < s.table.size
  sealed : ∀ g ∈ s.active, ∀ h ∈ s.active, g < h → (s.segment g).sealed = true
  fresh : ∀ h ∈ s.spare.toList ++ loose,
    (s.segment h).IsBlank ∧ (s.segment h).sealed = false
  found : ∀ h ∈ s.active ++ (s.spare.toList ++ loose), s.Found h
  readable : s.Readable

theorem Sound.housed (hs : s.Sound loose) : s.Housed loose where
  toFiled := hs.toCatalogued.filed
  distinct := by
    rw [← List.append_assoc]
    refine List.nodup_append.mpr ⟨hs.order.imp Nat.ne_of_lt, hs.distinct, fun h hh k hk he => ?_⟩
    exact hs.outside k hk (he ▸ hh)
  known := hs.known
  found := hs.found
  readable := hs.readable

/-- Segments that are housed are in order if their numbers are, and if those that wait for a place
are as they were made. -/
theorem Housed.sound (hs : s.Housed loose) (hc : s.Catalogued)
    (horder : (s.active ++ s.spare.toList).Pairwise (· < ·))
    (hsealed : ∀ g ∈ s.active, ∀ h ∈ s.active, g < h → (s.segment g).sealed = true)
    (hfresh : ∀ h ∈ s.spare.toList ++ loose,
      (s.segment h).IsBlank ∧ (s.segment h).sealed = false) : s.Sound loose := by
  have hdistinct := hs.distinct
  rw [← List.append_assoc] at hdistinct
  obtain ⟨-, hloose, hdisjoint⟩ := List.nodup_append.mp hdistinct
  exact {
    toCatalogued := hc
    order := horder
    distinct := hloose
    outside := fun h hh hm => hdisjoint h hm h hh rfl
    known := hs.known
    sealed := hsealed
    fresh := hfresh
    found := hs.found
    readable := hs.readable }

theorem Sound.known_active (hs : s.Sound loose) {h : Handle} (hh : h ∈ s.active) :
    h < s.table.size := hs.known h (List.mem_append_left _ hh)

theorem Sound.found_active (hs : s.Sound loose) {h : Handle} (hh : h ∈ s.active) : s.Found h :=
  hs.found h (List.mem_append_left _ hh)

theorem Sound.ascending_active (hs : s.Sound loose) : s.active.Pairwise (· < ·) :=
  (List.pairwise_append.mp hs.order).1

theorem Sound.active_not_fresh (hs : s.Sound loose) {h : Handle} (hh : h ∈ s.active) :
    h ∉ s.spare.toList ++ loose := hs.housed.active_not_fresh hh

theorem Sound.perm {loose' : List Handle} (hs : s.Sound loose) (hp : loose.Perm loose') :
    s.Sound loose' :=
  (hs.housed.perm hp).sound hs.toCatalogued hs.order hs.sealed fun h hh =>
    hs.fresh h ((hp.append_left _).mem_iff.mpr hh)

/-- What is done to segments in use, and to the contents of files, keeps a store in order. -/
theorem Sound.of_same (hs : s.Sound loose) (hsettings : s'.settings = s.settings)
    (hsize : s'.table.size = s.table.size)
    (hsame : ∀ k < s.table.size, (s.segment k).SameFile (s'.segment k) ∧
      ((s.segment k).sealed = true → (s'.segment k).sealed = true))
    (hfresh : ∀ k ∈ s.spare.toList ++ loose, s'.segment k = s.segment k)
    (hids : s.ids.next ≤ s'.ids.next) (hactive : s'.active = s.active)
    (hspare : s'.spare = s.spare) (htree : Disk.SameTree s.disk s'.disk)
    (hfiles : s'.disk.files.size = s.disk.files.size) : s'.Sound loose := by
  refine (hs.housed.of_same hsettings hsize (fun k hk => (hsame k hk).1) hactive hspare htree
    hfiles).sound (hs.toCatalogued.of_same hsettings hsize (fun k hk => (hsame k hk).1) hids
    (htree.wellFormed hs.disk) (Nat.le_of_eq hfiles.symm)) ?_ ?_ ?_
  · rw [hactive, hspare]
    exact hs.order
  · intro g hg h hh hgh
    rw [hactive] at hg hh
    exact (hsame g (hs.known_active hg)).2 (hs.sealed g hg h hh hgh)
  · intro h hh
    rw [hspare] at hh
    rw [hfresh h hh]
    exact hs.fresh h hh

theorem Sound.modify (hs : s.Sound loose) {h : Handle} {f : Segment → Segment}
    (hf : (s.segment h).SameFile (f (s.segment h)))
    (hsealed : (s.segment h).sealed = true → (f (s.segment h)).sealed = true)
    (hh : h ∉ s.spare.toList ++ loose ∨ f (s.segment h) = s.segment h) {d : Disk}
    (htree : Disk.SameTree s.disk d) (hfiles : d.files.size = s.disk.files.size) :
    Sound { s.modify h f with disk := d } loose := by
  have hseg : ∀ k, ({ s.modify h f with disk := d } : Store).segment k = (s.modify h f).segment k :=
    fun _ => rfl
  refine hs.of_same rfl (size_modify s h f) (fun k hk => ⟨sameFile_modify hf k hk, ?_⟩) ?_
    (UInt64.le_refl _) rfl rfl htree hfiles
  · exact modify_related (P := fun g g' => g.sealed = true → g'.sealed = true) (fun _ => id) hsealed
      k hk
  · intro k hk
    rw [hseg]
    by_cases hkh : k = h
    · subst hkh
      have hlt : k < s.table.size := hs.known k (List.mem_append_right _ hk)
      rw [segment_modify_self f hlt]
      exact hh.resolve_left (not_not_intro hk)
    · rw [segment_modify_ne f hkh]

theorem Sound.keepIdsAbove (hs : s.Sound loose) (id : SegmentId) :
    (s.keepIdsAbove id).Sound loose := by
  refine hs.of_same rfl rfl (fun k _ => ⟨.refl _, fun h => h⟩) (fun _ _ => rfl) ?_ rfl rfl
    (.refl _) rfl
  exact s.ids.next_le_keepAbove id

theorem Sound.report (hs : s.Sound loose) (cause : IoError) : (s.report cause).2.Sound loose :=
  hs.of_same rfl rfl (fun _ _ => ⟨.refl _, fun h => h⟩) (fun _ _ => rfl) (UInt64.le_refl _) rfl rfl
    (.refl _) rfl

theorem Sound.send (hs : s.Sound loose) (c : Chore) : (s.send c).Sound loose := by
  rw [Store.send]
  split
  · exact hs.of_same rfl rfl (fun _ _ => ⟨.refl _, fun h => h⟩) (fun _ _ => rfl)
      (UInt64.le_refl _) rfl rfl (.refl _) rfl
  · exact hs

theorem Sound.sealOff (hs : s.Sound loose) {h : Handle} (hh : h ∉ s.spare.toList ++ loose) :
    (s.sealOff h).Sound loose :=
  hs.modify (Segment.keeps_sealOff _).toSameFile (fun _ => rfl) (.inl hh) (.refl _) rfl

theorem Sound.giveUp (hs : s.Sound loose) {h : Handle} (hh : h ∉ s.spare.toList ++ loose)
    (cause : DiskError) : (s.giveUp h cause).2.Sound loose :=
  (hs.sealOff hh).report _

theorem Sound.syncSegment (hs : s.Sound loose) {h : Handle} {force : Bool}
    {r : Except DiskError Unit} (hh : h ∉ s.spare.toList ++ loose)
    (hr : s.syncSegment h force = (r, s')) : s'.Sound loose := by
  obtain ⟨u, d, rfl, htree, hsize, -⟩ := syncSegment_cases hr
  exact hs.modify ⟨rfl, rfl, rfl, rfl⟩ (fun h => h) (.inl hh) htree hsize

/-! ## Stores that were just opened -/

theorem foldl_keepIdsAbove (found : List (SegmentName × Path)) (s : Store) :
    found.foldl (fun s e => s.keepIdsAbove e.1.id) s =
      { s with ids := found.foldl (fun ids e => ids.keepAbove e.1.id) s.ids } := by
  induction found generalizing s with
  | nil => rfl
  | cons e rest ih => exact ih (s.keepIdsAbove e.1.id)

/-- What opening a store on a directory gives: nothing but the numbers depends on what is there. -/
theorem onDirectory_cases {settings : Settings} {now : UInt64} {disk : Disk} {monitor : Monitor}
    (h : onDirectory settings now disk monitor = .ok s) :
    ∃ found : List (SegmentName × Path),
      s = { settings, disk, monitor,
            ids := found.foldl (fun ids e => ids.keepAbove e.1.id) (.ofClock now) } ∧
      (disk.isDirectory settings.directory = true →
        segmentFiles disk settings.directory settings.stem = .ok found) := by
  simp only [onDirectory] at h
  split at h
  · split at h
    · cases h
    · rename_i found hfound
      cases h
      exact ⟨found, foldl_keepIdsAbove found _, fun _ => hfound⟩
  · rename_i hdir
    cases h
    exact ⟨[], rfl, fun hc => absurd hc hdir⟩

/-- Opening a store on a directory with known segment files. -/
theorem onDirectory_of_listed {settings : Settings} {disk : Disk}
    {found : List (SegmentName × Path)} (hdirectory : disk.isDirectory settings.directory = true)
    (hlisted : segmentFiles disk settings.directory settings.stem = .ok found) (now : UInt64)
    (monitor : Monitor) :
    onDirectory settings now disk monitor =
      .ok { settings, disk, monitor,
            ids := found.foldl (fun ids e => ids.keepAbove e.1.id) (.ofClock now) } := by
  rw [onDirectory, if_pos hdirectory, hlisted]
  exact congrArg Except.ok (foldl_keepIdsAbove found _)

/-- A store that was just opened on a disk with nothing on it. -/
def blank (settings : Settings) (now : UInt64) (faults : Faults := {}) : Store :=
  { settings, ids := .ofClock now, disk := { faults }, monitor := { policy := settings.policy } }

theorem segmentFiles_blank (faults : Faults) (stem : String) :
    segmentFiles { faults } ⟨[Path.dot]⟩ stem = .ok [] := by
  show Except.ok (List.mergeSort [] inOrder) = _
  rw [List.mergeSort_nil]

theorem onDirectory_blank {settings : Settings} (h : settings.directory = ⟨[Path.dot]⟩)
    (now : UInt64) (faults : Faults) :
    onDirectory settings now { faults } { policy := settings.policy } =
      .ok (blank settings now faults) := by
  simp only [onDirectory, h, segmentFiles_blank]
  rfl

theorem sound_onDirectory {settings : Settings} {now : UInt64} {disk : Disk} {monitor : Monitor}
    (h : onDirectory settings now disk monitor = .ok s) (hd : disk.WellFormed) : s.Sound [] := by
  obtain ⟨found, rfl, -⟩ := onDirectory_cases h
  have hpositive : 0 < (IdSource.ofClock now).next := by
    rw [IdSource.ofClock, UInt64.max_def]
    split
    · decide
    · rename_i hle
      exact UInt64.lt_trans (by decide) (UInt64.not_le.mp hle)
  have hnone : ∀ {P : Handle → Prop}, ∀ h < (#[] : Array Segment).size, P h :=
    fun h hh => absurd hh (Nat.not_lt_zero h)
  exact {
    disk := hd
    positive := UInt64.lt_of_lt_of_le hpositive (IdSource.next_le_foldl found _)
    named := hnone
    placed := hnone
    above := hnone
    below := hnone
    ascending := fun g h _ hh => absurd hh (Nat.not_lt_zero h)
    files := hnone
    apart := fun g h _ hh => absurd hh (Nat.not_lt_zero h)
    order := List.Pairwise.nil
    distinct := List.nodup_nil
    outside := fun _ hh => (nomatch hh)
    known := fun _ hh => (nomatch hh)
    sealed := fun _ hg => (nomatch hg)
    fresh := fun _ hh => (nomatch hh)
    found := fun _ hh => (nomatch hh)
    readable := hnone }

end Store

end SegmentLog
