import SegmentLog.Proofs.Store.Appending
import SegmentLog.Proofs.Store.Listing
import SegmentLog.Proofs.Store.Requests

/-!
# Stores in step with their directory

A store that began in a directory without segment files is in step with it after every request: the
segment files of the directory are those of its segments, each with a file of its own, and nothing
else. It does not matter which files could not be created and which writes failed on the way. A file
that was created has a segment that owns it, even before the segment has a place; and a segment
leaves its place only together with its file, as long as removals do not fail. What is in the files
is just what was claimed, apart from the segments in which a write has failed.

* `Retains` — what leaves the contents and the claims alone;
* `Mirrored` — the invariant, with the segments that have no place yet and those in which a write
  has failed;
* `Mirrored.newSegment`, `Mirrored.deleteFile` — files come and go;
* `Mirrored.append`, `Mirrored.discard`, `Mirrored.finish`, `Mirrored.wipe` — the requests;
* `directory_in_step` — a store and its directory after any run.
-/

namespace SegmentLog.Store

variable {s s' : Store} {loose loose' torn torn' : List Handle}

/-! ## Segment files -/

/-- Whether a path is that of a segment file in the directory of a store. -/
def Lists (s : Store) (p : Path) : Prop :=
  ∃ n q id name, Disk.IsName n ∧ p = s.settings.directory.join ⟨n⟩ ∧
    s.disk.find p = .ok (q, .file id) ∧ SegmentName.ofPath s.settings.stem p = .ok name

theorem lists_iff (hd : s.disk.WellFormed) {found : List (SegmentName × Path)}
    (hfound : segmentFiles s.disk s.settings.directory s.settings.stem = .ok found) {p : Path} :
    s.Lists p ↔ ∃ name, (name, p) ∈ found := by
  constructor
  · rintro ⟨n, q, id, name, hn, hp, hfind, hname⟩
    exact ⟨name, (mem_segmentFiles_iff hd hfound).mpr ⟨n, q, id, hn, hp, hfind, hname⟩⟩
  · rintro ⟨name, hmem⟩
    obtain ⟨n, q, id, hn, hp, hfind, hname⟩ := (mem_segmentFiles_iff hd hfound).mp hmem
    exact ⟨n, q, id, name, hn, hp, hfind, hname⟩

/-! ## What stays -/

/-- Whether segments keep their files, what is in them, and what is claimed of them, while new ones
begin with nothing. -/
structure Retains (s s' : Store) : Prop where
  settings : s'.settings = s.settings
  old : ∀ k < s.table.size, (s.segment k).SameFile (s'.segment k) ∧
    (s'.segment k).cursor = (s.segment k).cursor ∧
    s'.disk.content (s.segment k).file = s.disk.content (s.segment k).file
  new : ∀ k, s.table.size ≤ k → k < s'.table.size →
    (s'.segment k).cursor = 0 ∧ s'.disk.content (s'.segment k).file = []
  faults : Faults.Within s.disk.faults s'.disk.faults

theorem Retains.empty (hr : s.Retains s') {h : Handle} (hh : h < s'.table.size)
    (hempty : s.disk.content (s.segment h).file = []) :
    s'.disk.content (s'.segment h).file = [] := by
  by_cases hk : h < s.table.size
  · rw [(hr.old h hk).1.file, (hr.old h hk).2.2]
    exact hempty
  · exact (hr.new h (Nat.le_of_not_lt hk) hh).2

theorem Retains.full (hr : s.Retains s') {h : Handle} (hh : h < s'.table.size)
    (hfull : h < s.table.size →
      (s.disk.content (s.segment h).file).length = (s.segment h).cursor) :
    (s'.disk.content (s'.segment h).file).length = (s'.segment h).cursor := by
  by_cases hk : h < s.table.size
  · rw [(hr.old h hk).1.file, (hr.old h hk).2.1, (hr.old h hk).2.2]
    exact hfull hk
  · obtain ⟨hcursor, hcontent⟩ := hr.new h (Nat.le_of_not_lt hk) hh
    rw [hcursor, hcontent]
    rfl

theorem Evolves.retains (he : s.Evolves s') (hs : s.Filed) : s.Retains s' where
  settings := he.settings
  old k hk := ⟨(he.old k hk).toSameFile, (he.old k hk).cursor, he.content _ (hs.files k hk)⟩
  new k hle hlt := ⟨(he.new k hle hlt).1.cursor, (he.new k hle hlt).2.2.2⟩
  faults := he.faults

theorem retains_noteFlush (s : Store) (h : Handle) (p : Partition) (upTo : Position) :
    s.Retains (s.noteFlush h p upTo) where
  settings := rfl
  old k _ := by
    obtain ⟨marks, hflush⟩ := s.segment_noteFlush_marks h k p upTo
    rw [hflush]
    exact ⟨⟨rfl, rfl, rfl, rfl⟩, rfl, rfl⟩
  new k hle hlt := absurd hlt (by rw [noteFlush, size_modify]; exact Nat.not_lt.mpr hle)
  faults := .refl _

/-! ## The invariant -/

/-- Whether the segment files in the directory of a store are just those of its segments. The file
of the spare is empty, and that of every segment has just as many bytes as were claimed in it,
unless a write in it has failed. -/
structure Mirrored (s : Store) (loose torn : List Handle) : Prop extends Housed s loose where
  stem : '/' ∉ s.settings.stem.toList
  directory : s.disk.isDirectory s.settings.directory = true
  removable : ∀ f ∈ s.disk.faults.remove, f = none
  owned : ∀ p, s.Lists p → ∃ h ∈ s.own loose, (s.segment h).path = p
  empty : ∀ h, s.spare = some h → s.disk.content (s.segment h).file = []
  full : ∀ h < s.table.size, h ∉ torn →
    (s.disk.content (s.segment h).file).length = (s.segment h).cursor

theorem Mirrored.mono (hs : s.Mirrored loose torn) (h : torn ⊆ torn') : s.Mirrored loose torn' :=
  { hs with full := fun k hk hout => hs.full k hk fun hm => hout (h hm) }

/-- Contents and claims stay, and every file still has a segment. -/
theorem Mirrored.retain (hs : s.Mirrored loose torn) (hr : s.Retains s') (hs' : s'.Housed loose')
    (hdirectory : s'.disk.isDirectory s.settings.directory = true)
    (howned : ∀ p, s'.Lists p → ∃ h ∈ s'.own loose', (s'.segment h).path = p)
    (hspare : ∀ h, s'.spare = some h → s.disk.content (s.segment h).file = []) :
    s'.Mirrored loose' torn where
  toHoused := hs'
  stem := by rw [hr.settings]; exact hs.stem
  directory := by rw [hr.settings]; exact hdirectory
  removable f hf := hs.removable f (hr.faults.remove f hf)
  owned := howned
  empty h hh := hr.empty (hs'.known h (by simp [hh])) (hspare h hh)
  full h hh hout := hr.full hh fun hk => hs.full h hk hout

/-- No file comes or goes, and no segment is lost. -/
theorem Mirrored.on_tree (hs : s.Mirrored loose torn) (hs' : s'.Housed loose')
    (hsettings : s'.settings = s.settings)
    (hpath : ∀ k < s.table.size, (s'.segment k).path = (s.segment k).path)
    (htree : Disk.SameTree s.disk s'.disk) (hfaults : Faults.Within s.disk.faults s'.disk.faults)
    (hown : s.own loose ⊆ s'.own loose')
    (hempty : ∀ h, s'.spare = some h → s'.disk.content (s'.segment h).file = [])
    (hfull : ∀ h < s'.table.size, h ∉ torn' →
      (s'.disk.content (s'.segment h).file).length = (s'.segment h).cursor) :
    s'.Mirrored loose' torn' where
  toHoused := hs'
  stem := by rw [hsettings]; exact hs.stem
  directory := by
    obtain ⟨q, D, hfind⟩ := Disk.isDirectory_iff.mp hs.directory
    exact Disk.isDirectory_iff.mpr ⟨q, D, by rw [htree.find, hsettings, hfind]⟩
  removable f hf := hs.removable f (hfaults.remove f hf)
  owned p hp := by
    obtain ⟨n, q, id, name, hn, rfl, hfind, hname⟩ := hp
    rw [hsettings, htree.find] at hfind
    rw [hsettings] at hname ⊢
    obtain ⟨h, hh, hp⟩ := hs.owned _ ⟨n, q, id, name, hn, rfl, hfind, hname⟩
    exact ⟨h, hown hh, by rw [hpath h (hs.known h hh), hp]⟩
  empty := hempty
  full := hfull

/-- Neither a file nor what is in one changes, and no segment is lost. -/
theorem Mirrored.of_tree (hs : s.Mirrored loose torn) (hr : s.Retains s') (hs' : s'.Housed loose')
    (htree : Disk.SameTree s.disk s'.disk) (hown : s.own loose ⊆ s'.own loose')
    (hspare : ∀ h, s'.spare = some h → s.disk.content (s.segment h).file = []) :
    s'.Mirrored loose' torn :=
  hs.on_tree hs' hr.settings (fun k hk => (hr.old k hk).1.path) htree hr.faults hown
    (fun h hh => hr.empty (hs'.known h (by simp [hh])) (hspare h hh))
    fun h hh hout => hr.full hh fun hk => hs.full h hk hout

/-- A change that leaves the table and the disk alone, and loses no segment. -/
theorem Mirrored.arrange (hs : s.Mirrored loose torn) (hsettings : s'.settings = s.settings)
    (htable : s'.table = s.table) (hdisk : s'.disk = s.disk)
    (hplaces : (s'.own loose').Perm (s.own loose))
    (hspare : ∀ h, s'.spare = some h → s.disk.content (s.segment h).file = []) :
    s'.Mirrored loose' torn := by
  have hevolves : s.Evolves s' := .of_eq hsettings htable hdisk
  refine hs.of_tree (hevolves.retains hs.toFiled)
    (hs.toHoused.arrange hsettings htable hdisk hplaces.subperm) ?_ hplaces.symm.subset hspare
  rw [hdisk]
  exact .refl _

theorem Mirrored.of_eq (hs : s.Mirrored loose torn) (hsettings : s'.settings = s.settings)
    (htable : s'.table = s.table) (hdisk : s'.disk = s.disk) (hactive : s'.active = s.active)
    (hspare : s'.spare = s.spare) : s'.Mirrored loose torn := by
  refine hs.arrange hsettings htable hdisk ?_ (by rw [hspare]; exact hs.empty)
  rw [own, own, hactive, hspare]

theorem Mirrored.sealOff (hs : s.Mirrored loose torn) (h : Handle) :
    (s.sealOff h).Mirrored loose torn :=
  hs.of_tree ((evolves_sealOff s h).retains hs.toFiled) (hs.toHoused.sealOff h) (.refl _)
    (List.Subset.refl _) hs.empty

theorem Mirrored.giveUp (hs : s.Mirrored loose torn) (h : Handle) (cause : DiskError) :
    (s.giveUp h cause).2.Mirrored loose torn :=
  (hs.sealOff h).of_eq rfl rfl rfl rfl rfl

theorem Mirrored.noteFlush (hs : s.Mirrored loose torn) (h : Handle) (p : Partition)
    (upTo : Position) : (s.noteFlush h p upTo).Mirrored loose torn :=
  hs.of_tree (retains_noteFlush s h p upTo) (hs.toHoused.noteFlush h p upTo) (.refl _)
    (List.Subset.refl _) hs.empty

theorem Mirrored.syncSegment (hs : s.Mirrored loose torn) {h : Handle} {force : Bool}
    {r : Except DiskError Unit} (hr : s.syncSegment h force = (r, s')) :
    s'.Mirrored loose torn := by
  have hretains := (evolves_syncSegment hr).retains hs.toFiled
  have hhoused := hs.toHoused.syncSegment hr
  obtain ⟨u, d, rfl, htree, -⟩ := syncSegment_cases hr
  exact hs.of_tree hretains hhoused htree (List.Subset.refl _) hs.empty

/-! ## Files that come and go -/

/-- A file that is created is empty and has a segment, which has no place yet. -/
theorem Mirrored.newSegment (hs : s.Mirrored loose torn) {r : Except DiskError Handle}
    (h : s.newSegment = (r, s')) :
    (∃ e, r = .error e ∧ s'.Mirrored loose torn) ∨
      ∃ k, r = .ok k ∧ s'.disk.content (s'.segment k).file = [] ∧
        s'.Mirrored (k :: loose) torn := by
  have hretains := (evolves_newSegment h).retains hs.toFiled
  obtain ⟨hactive, hspare, hcase⟩ := hs.toHoused.newSegment h
  obtain ⟨d, -, ⟨e, rfl, rfl, htree, -⟩ | ⟨g, q, n, rfl, rfl, hg, hq, hn, hattached⟩⟩ :=
    newSegment_cases h
  · obtain ⟨_, -, hs'⟩ | ⟨hr, -⟩ := hcase
    · exact .inl ⟨e, rfl, hs.of_tree hretains hs' htree (List.Subset.refl _) hs.empty⟩
    · cases hr
  obtain ⟨_, hr, -⟩ | ⟨-, hs'⟩ := hcase
  · cases hr
  refine .inr ⟨_, rfl, (hretains.new _ (Nat.le_refl _) (by simp)).2,
    hs.retain hretains hs' (hattached.keeps.isDirectory hs.directory) (fun p hp => ?_) hs.empty⟩
  obtain ⟨m, r, id, name, hm, rfl, hfind, hname⟩ := hp
  rcases hattached.find_cases hfind with hold | hr
  · obtain ⟨k, hk, hpath⟩ := hs.owned _ ⟨m, r, id, name, hm, rfl, hold, hname⟩
    have hmem : k ∈ s.own (s.table.size :: loose) := by
      simp only [own, List.mem_append, List.mem_cons] at hk ⊢
      exact hk.imp_right (Or.imp_right .inr)
    exact ⟨k, hmem, by rw [(hretains.old k (hs.known k hk)).1.path, hpath]⟩
  · -- the new file is the only one of its name
    have hbytes := Disk.bytes_ne_nil_of_isDirectory hs.directory
    obtain ⟨hm', -⟩ := Disk.locate_join hbytes hm (Disk.find_eq_ok_iff.mp hfind).1
    rw [hg] at hq
    obtain ⟨hname', -⟩ := SegmentName.name_of_locate hs.stem hq
    rw [hr, ← hn, hname'] at hm'
    cases hm'
    have hnew : Store.segment
        { s with ids := s.ids.take.2, disk := d, table := s.table.push g } s.table.size = g := by
      rw [segment_push rfl, if_pos rfl]
    refine ⟨s.table.size, by simp [own], ?_⟩
    rw [hnew, hg]
    rfl

/-- A segment without a place goes together with its file. -/
theorem Mirrored.deleteFile {k : Handle} (hs : s.Mirrored (k :: loose) torn)
    {r : Except DiskError Unit} (h : s.deleteFile k = (r, s')) :
    r = .ok () ∧ s'.Mirrored loose torn := by
  have hretains : s.Retains s' := by
    have hevolves := (evolves_deleteFile s k).retains hs.toFiled
    rwa [h] at hevolves
  have hhoused : s'.Housed loose := by
    have hdeleted := hs.toHoused.deleteFile
    rwa [h] at hdeleted
  obtain ⟨d, rfl, hr⟩ := deleteFile_cases h
  obtain ⟨p, hp⟩ := hs.found k (by simp)
  have hok : r = .ok () := by
    rw [← Disk.remove_ok hp (Faults.next?_eq_none hs.removable), hr]
  obtain ⟨-, ⟨e, he, -⟩ | ⟨q, n, id, -, hq, hn, hdetached⟩⟩ := Disk.remove_cases hr
  · rw [hok] at he
    cases he
  refine ⟨hok, hs.retain hretains hhoused (hdetached.keeps.isDirectory hs.directory)
    (fun p' hp' => ?_) hs.empty⟩
  · obtain ⟨m, r', id', name, hm, rfl, hfind, hname⟩ := hp'
    obtain ⟨hfind', hplace⟩ := hdetached.find_back hfind
    obtain ⟨j, hj, hpath⟩ := hs.owned _ ⟨m, r', id', name, hm, rfl, hfind', hname⟩
    have hjk : j ≠ k := by
      rintro rfl
      rw [← hpath, hq] at hfind'
      cases hfind'
      exact hplace ⟨rfl, hn⟩
    refine ⟨j, ?_, hpath⟩
    simp only [own, List.mem_append, List.mem_cons] at hj ⊢
    exact hj.imp_right (Or.imp_right fun hj => hj.resolve_left hjk)

theorem Mirrored.placeSpare {k : Handle} (hs : s.Mirrored (k :: loose) torn)
    (hempty : s.disk.content (s.segment k).file = []) : (s.placeSpare k).Mirrored loose torn := by
  unfold Store.placeSpare
  split
  · rename_i hplace
    have hnone := Option.isNone_iff_eq_none.mp hplace.1
    refine hs.arrange rfl rfl rfl (by rw [own, own, hnone]; rfl) fun j hj => ?_
    cases hj
    exact hempty
  · cases hd : s.deleteFile k with
    | mk r s' => exact (hs.deleteFile hd).2

/-! ## The segment of an append -/

theorem Mirrored.withdrawSpare (hs : s.Mirrored loose torn) {r : Option Handle}
    (h : s.withdrawSpare = (r, s')) :
    r = none ∧ s'.Mirrored loose torn ∨ ∃ k, r = some k ∧ s'.Mirrored (k :: loose) torn := by
  have hloose : ∀ k, s.spare = some k →
      Mirrored { s with spare := none } (k :: loose) torn := fun k hk =>
    hs.arrange rfl rfl rfl (by rw [own, own, hk]; rfl) fun j hj => (nomatch hj)
  rcases withdrawSpare_cases h with ⟨-, rfl, rfl⟩ | ⟨k, hk, ⟨rfl, rfl⟩ | ⟨rfl, rfl⟩⟩
  · exact .inl ⟨rfl, hs⟩
  · exact .inr ⟨k, rfl, hloose k hk⟩
  · exact .inl ⟨rfl, ((hloose k hk).deleteFile (Prod.eta _).symm).2⟩

theorem Mirrored.activate {k : Handle} (hs : s.Mirrored (k :: loose) torn) :
    (s.activate k).Mirrored loose torn := by
  obtain ⟨s₁, mail, he, hcase⟩ := activate_eq s k
  have hs₁ : s₁.Mirrored (k :: loose) torn ∧ s₁.active = s.active := by
    rcases hcase with ⟨-, rfl⟩ | ⟨t, -, rfl⟩
    · exact ⟨hs, rfl⟩
    · exact ⟨hs.sealOff t, rfl⟩
  rw [he]
  refine hs₁.1.arrange rfl rfl rfl ?_ hs₁.1.empty
  rw [own, own, ← hs₁.2]
  exact perm_activate ..

theorem Mirrored.rollOver (hs : s.Mirrored loose torn) {r : Except LogError Handle}
    (h : s.rollOver = (r, s')) : s'.Mirrored loose torn := by
  obtain ⟨spare, s₁, hw, hcase⟩ := rollOver_cases h
  obtain ⟨rfl, hs₁⟩ | ⟨k, rfl, hs₁⟩ := hs.withdrawSpare hw
  · obtain ⟨_, hr, -⟩ | ⟨-, made, s₂, hn, hmade⟩ := hcase
    · cases hr
    · obtain ⟨_, rfl, hs₂⟩ | ⟨_, rfl, -, hs₂⟩ := hs₁.newSegment hn
      · obtain ⟨e, -, -, rfl⟩ | ⟨_, hr, -⟩ := hmade
        · exact hs₂.of_eq rfl rfl rfl rfl rfl
        · cases hr
      · obtain ⟨_, hr, -⟩ | ⟨_, hr, -, rfl⟩ := hmade <;> cases hr
        exact hs₂.activate
  · obtain ⟨_, hr, -, rfl⟩ | ⟨hr, -⟩ := hcase <;> cases hr
    exact hs₁.activate

theorem Mirrored.segmentFor (hs : s.Mirrored loose torn) {length : Nat}
    {r : Except LogError Handle} (h : s.segmentFor length = (r, s')) :
    s'.Mirrored loose torn ∧ ∀ k, r = .ok k → s'.tail? = some k := by
  refine ⟨?_, (hs.toHoused.segmentFor h).2.2.2⟩
  rcases segmentFor_cases h with ⟨k, -, -, -, rfl⟩ | h
  · exact hs
  · exact hs.rollOver h

/-! ## Appends -/

/-- The segment in which a request fails to write, if there is one. -/
def failedWrite? (s : Store) : Request → Option Handle
  | .append m =>
    match m.frame s.maxPayload with
    | .error _ => none
    | .ok frame =>
      match s.claim m.partitions frame.length with
      | (.error _, _) => none
      | (.ok c, s) =>
        match s.write c frame with
        | (.ok (), _) => none
        | (.error _, _) => some c.handle
  | _ => none

/-- What is written to the file of an active segment changes no other file. -/
theorem Mirrored.put (hs : s.Mirrored loose torn) (hs' : s'.Housed loose) {k : Handle}
    (hk : k ∈ s.active) (hw : s.WritesTo s' k) (hsize : s'.table.size = s.table.size)
    (htorn : torn ⊆ torn') (hfull : k ∉ torn' →
      (s'.disk.content (s.segment k).file).length = (s'.segment k).cursor) :
    s'.Mirrored loose torn' := by
  have hknown := hs.known_active hk
  have hown : s'.own loose = s.own loose := by rw [own, own, hw.active, hw.spare]
  refine hs.on_tree hs' hw.settings (fun j hj => (hw.same j hj).1.path) hw.tree hw.faults
    (by rw [hown]; exact List.Subset.refl _) (fun j hj => ?_) fun j hj hout => ?_
  · rw [hw.spare] at hj
    have hfresh : j ∈ s.spare.toList ++ loose := by simp [hj]
    have hjk : j ≠ k := by
      rintro rfl
      exact hs.active_not_fresh hk hfresh
    obtain ⟨hsegment, hcontent⟩ :=
      hw.elsewhere hs.toFiled hknown (hs.known j (List.mem_append_right _ hfresh)) hjk
    rw [hsegment, hcontent]
    exact hs.empty j hj
  · rw [hsize] at hj
    by_cases hjk : j = k
    · subst hjk
      rw [(hw.same j hj).1.file]
      exact hfull hout
    · obtain ⟨hsegment, hcontent⟩ := hw.elsewhere hs.toFiled hknown hj hjk
      rw [hsegment, hcontent]
      exact hs.full j hj fun hm => hout (htorn hm)

/-- A frame that is written behind what a file holds fills the range that was claimed for it; one
that cannot be written does not. -/
theorem Mirrored.write (hs : s.Mirrored loose torn) {k : Handle} (hk : k ∈ s.active)
    {partitions : List Partition} {frame : Bytes} {r : Except DiskError Unit}
    (h : (s.modify k fun g => g.claimed partitions frame.length).write
      ⟨k, (s.segment k).cursor⟩ frame = (r, s')) :
    r = .ok () ∧ s'.Mirrored loose torn ∨ ∃ e, r = .error e ∧ s'.Mirrored loose (k :: torn) := by
  have hknown := hs.known_active hk
  have hfile := hs.files k hknown
  have hs' : s'.Housed loose := by
    have hclaimed := hs.toHoused.modify (h := k)
      (f := fun g => g.claimed partitions frame.length) ⟨rfl, rfl, rfl, rfl⟩ (.refl _) rfl
    exact hclaimed.write h (by rw [size_modify]; exact hknown)
  obtain ⟨hw, hsize, hcursor, hwrite⟩ := writesTo_write hknown hfile h
  cases r with
  | error e =>
    exact .inr ⟨e, rfl, hs.put hs' hk hw hsize (List.subset_cons_self _ _) fun hout =>
      absurd List.mem_cons_self hout⟩
  | ok =>
    refine .inl ⟨rfl, hs.put hs' hk hw hsize (List.Subset.refl _) fun hout => ?_⟩
    rw [← hs.full k hknown hout] at hwrite
    rcases Disk.writeAt_end_cases hwrite hfile with ⟨-, hcontent⟩ | ⟨_, _, hr, -⟩
    · rw [hcontent, hcursor, List.length_append, hs.full k hknown hout]
    · cases hr

/-- The locked part of an append claims a range in the last active segment, or it claims nothing. -/
theorem Mirrored.claim (hs : s.Mirrored loose torn) {partitions : List Partition} {length : Nat}
    {r : Except LogError Claim} (h : s.claim partitions length = (r, s')) :
    (∃ e, r = .error e ∧ s'.Mirrored loose torn) ∨
      ∃ (s₁ : Store) (k : Handle), r = .ok ⟨k, (s₁.segment k).cursor⟩ ∧
        s₁.Mirrored loose torn ∧ k ∈ s₁.active ∧
        s' = s₁.modify k fun g => g.claimed partitions length := by
  obtain ⟨r₁, s₁, hf, -, hcase⟩ := claim_cases h
  obtain ⟨hs₁, htail⟩ := hs.segmentFor hf
  rcases hcase with ⟨e, -, rfl, rfl⟩ | ⟨k, rfl, ⟨cause, rfl, rfl⟩ | ⟨rfl, -, hclaimed⟩⟩
  · exact .inl ⟨e, rfl, hs₁⟩
  · exact .inl ⟨_, rfl, hs₁.of_eq rfl rfl rfl rfl rfl⟩
  · have hk := mem_of_tail? (htail k rfl)
    exact .inr ⟨s₁, k, rfl, hs₁, hk, hclaimed (hs₁.known_active hk)⟩

theorem Mirrored.acknowledge (hs : s.Mirrored loose torn) {c : Claim}
    {r : Except LogError Position} (h : s.acknowledge c = (r, s')) : s'.Mirrored loose torn := by
  obtain ⟨-, -, rfl⟩ | ⟨-, _, s₁, hr, hcase⟩ := acknowledge_cases h
  · exact hs
  have hs₁ := hs.syncSegment hr
  obtain ⟨-, -, rfl⟩ | ⟨cause, _, -, -, rfl⟩ := hcase
  · exact hs₁
  · exact hs₁.giveUp c.handle cause

theorem Mirrored.append (hs : s.Mirrored loose torn) (m : Mutation) :
    (s.append m).2.Mirrored loose ((s.failedWrite? (.append m)).toList ++ torn) := by
  unfold Store.append failedWrite?
  dsimp only
  cases hm : m.frame s.maxPayload with
  | error e => exact hs
  | ok frame =>
    dsimp only
    cases hc : s.claim m.partitions frame.length with
    | mk granted s₁ =>
      obtain ⟨e, rfl, hs₁⟩ | ⟨s₀, k, rfl, hs₀, hk, he⟩ := hs.claim hc
      · exact hs₁
      dsimp only
      cases hw : s₁.write ⟨k, (s₀.segment k).cursor⟩ frame with
      | mk written s₂ =>
        rw [he] at hw
        obtain ⟨rfl, hs₂⟩ | ⟨cause, rfl, hs₂⟩ := hs₀.write hk hw
        · exact hs₂.acknowledge rfl
        · exact hs₂.giveUp k cause

/-! ## Discards -/

theorem Mirrored.deleteSegment (hs : s.Mirrored loose torn) (h : Handle) :
    (s.deleteSegment h).Mirrored loose torn := by
  unfold Store.deleteSegment
  rcases unlink_cases s h with ⟨hu, hh, -⟩ | ⟨hu, -⟩
  · rw [hu]
    have hout : Mirrored { s with active := s.active.erase h } (h :: loose) torn :=
      hs.arrange rfl rfl rfl (perm_erase hh ..) hs.empty
    dsimp only
    cases hd : Store.deleteFile { s with active := s.active.erase h } h with
    | mk r s' => exact (hout.deleteFile hd).2
  · rw [hu]
    exact hs

theorem Mirrored.discardEach (hs : s.Mirrored loose torn) (p : Partition) (upTo : Position)
    (todo : List Handle) : (discardEach p upTo todo s).Mirrored loose torn := by
  have hone : ∀ (t : Store) (h : Handle), t.Mirrored loose torn →
      (t.discardOne p upTo h).Mirrored loose torn := by
    intro t h ht
    unfold Store.discardOne
    dsimp only
    split
    · exact (ht.noteFlush h p upTo).deleteSegment h
    · exact ht.noteFlush h p upTo
  induction todo generalizing s with
  | nil => exact hs
  | cons h rest ih =>
    rw [discardEach_cons]
    split
    · exact hone s h hs
    · exact ih (hone s h hs)

theorem Mirrored.discard (hs : s.Mirrored loose torn) (p : Partition) (upTo : Position) :
    (s.discard p upTo).Mirrored loose torn := hs.discardEach p upTo s.active

/-! ## The spare, syncs and the end -/

theorem Mirrored.stockSpare (hs : s.Mirrored loose torn) :
    s.stockSpare.2.Mirrored loose torn := by
  unfold Store.stockSpare
  split
  · cases hn : s.newSegment with
    | mk made s₁ =>
      obtain ⟨e, rfl, hs₁⟩ | ⟨k, rfl, hempty, hs₁⟩ := hs.newSegment hn
      · exact hs₁.of_eq rfl rfl rfl rfl rfl
      · exact hs₁.placeSpare hempty
  · exact hs

theorem Mirrored.syncEach (hs : s.Mirrored loose torn) (force : Bool) (todo : List Handle) :
    (syncEach force todo s).2.Mirrored loose torn := by
  induction todo generalizing s with
  | nil => exact hs
  | cons h rest ih =>
    unfold Store.syncEach
    cases hr : s.syncSegment h force with
    | mk synced s₁ =>
      have hs₁ := hs.syncSegment hr
      cases synced with
      | ok => exact ih hs₁
      | error cause =>
        cases force
        · exact hs₁.of_eq rfl rfl rfl rfl rfl
        · exact hs₁.giveUp h cause

theorem Mirrored.sync (hs : s.Mirrored loose torn) (force : Bool) :
    (s.sync force).2.Mirrored loose torn := by
  unfold Store.sync
  split
  · obtain ⟨mail, he⟩ := send_eq s .sync
    dsimp only
    rw [he]
    exact hs.of_eq rfl rfl rfl rfl rfl
  · exact hs.syncEach force s.active

/-- The use of a store ends without a spare, or with a sync that fails. -/
theorem Mirrored.finish (hs : s.Mirrored loose torn) {r : Except LogError Unit}
    (h : s.finish = (r, s')) : s'.Mirrored loose torn ∧ (r = .ok () → s'.spare = none) := by
  obtain ⟨synced, s₁, hsync, hcase⟩ := finish_cases h
  have hs₁ : s₁.Mirrored loose torn := by
    have hall := hs.syncEach true s.active
    rwa [← syncActive, hsync] at hall
  rcases hcase with ⟨e, -, rfl, rfl⟩ | ⟨-, ⟨hnone, rfl, rfl⟩ | ⟨k, removed, hk, hd, -⟩⟩
  · exact ⟨hs₁, fun hr => by cases hr⟩
  · exact ⟨hs₁, fun _ => hnone⟩
  · have hloose : Mirrored { s₁ with spare := none } (k :: loose) torn :=
      hs₁.arrange rfl rfl rfl (by rw [own, own, hk]; rfl) fun j hj => by cases hj
    obtain ⟨d, rfl, -⟩ := deleteFile_cases hd
    exact ⟨(hloose.deleteFile hd).2, fun _ => rfl⟩

theorem Mirrored.deleteEach {todo : List Handle} (hs : s.Mirrored todo torn)
    {r : Except LogError Unit} (h : deleteEach todo s = (r, s')) :
    r = .ok () ∧ s'.Mirrored [] torn := by
  induction todo generalizing s with
  | nil =>
    cases h
    exact ⟨rfl, hs⟩
  | cons k rest ih =>
    cases hd : s.deleteFile k with
    | mk removed s₁ =>
      obtain ⟨rfl, hs₁⟩ := hs.deleteFile hd
      unfold Store.deleteEach at h
      rw [hd] at h
      exact ih hs₁ h

/-- The removal of all segments does not fail, as removals do not. -/
theorem Mirrored.wipe (hs : s.Mirrored [] torn) {r : Except LogError Unit}
    (h : s.wipe = (r, s')) : r = .ok () ∧ s'.Mirrored [] torn := by
  have hloose : Mirrored { s with active := [], spare := none } (s.active ++ s.spare.toList) torn :=
    hs.arrange rfl rfl rfl (by simp [own]) fun j hj => (nomatch hj)
  exact hloose.deleteEach h

/-! ## Runs -/

theorem Mirrored.serve (hs : s.Mirrored [] torn) (request : Request) :
    (s.serve request).Mirrored [] ((s.failedWrite? request).toList ++ torn) := by
  cases request with
  | append m => exact hs.append m
  | discard p upTo => exact hs.discard p upTo
  | stockSpare => exact hs.stockSpare
  | sync force => exact hs.sync force
  | syncActive force => exact hs.syncEach force s.active
  | finish => exact (hs.finish rfl).1
  | wipe => exact (hs.wipe rfl).2
  | keepIdsAbove | attach => exact hs.of_eq rfl rfl rfl rfl rfl

/-- The segments in which a write fails while some requests are served. -/
def failedWrites (s : Store) : List Request → List Handle
  | [] => []
  | request :: rest => (s.failedWrite? request).toList ++ (s.serve request).failedWrites rest

theorem Mirrored.serveAll (hs : s.Mirrored [] torn) (requests : List Request) :
    (s.serveAll requests).Mirrored [] (s.failedWrites requests ++ torn) := by
  induction requests generalizing s torn with
  | nil => exact hs
  | cons request rest ih =>
    refine (ih (hs.serve request)).mono ?_
    rw [failedWrites, ← List.append_assoc]
    exact (List.perm_append_comm.append_right torn).subset

/-- A store that was just opened on a directory without segment files has no segment. -/
theorem mirrored_onDirectory {settings : Settings} {now : UInt64} {disk : Disk} {monitor : Monitor}
    (hopen : onDirectory settings now disk monitor = .ok s) (hdisk : disk.WellFormed)
    (hstem : '/' ∉ settings.stem.toList)
    (hempty : segmentFiles disk settings.directory settings.stem = .ok [])
    (hremovable : ∀ f ∈ disk.faults.remove, f = none) : s.Mirrored [] [] := by
  have hhoused := housed_onDirectory hopen hdisk
  obtain ⟨found, rfl, -⟩ := onDirectory_cases hopen
  refine {
    toHoused := hhoused
    stem := hstem
    directory := isDirectory_of_segmentFiles hempty
    removable := hremovable
    owned := fun p hp => ?_
    empty := fun h hh => (nomatch hh)
    full := fun h hh => absurd hh (Nat.not_lt_zero h) }
  obtain ⟨name, hname⟩ := (lists_iff hdisk hempty).mp hp
  cases hname

/-! ## In step -/

/-- Whether a store and its directory are in step: the segment files in the directory are those of
the active segments and of the spare, all of them different. The file of the spare is empty, and
that of every active segment has just as many bytes as were claimed in it, apart from those in which
a write has failed. -/
structure InStep (s : Store) (torn : List Handle) : Prop where
  listed : ∃ found, segmentFiles s.disk s.settings.directory s.settings.stem = .ok found ∧
    found.Perm ((s.active ++ s.spare.toList).map s.entry)
  found : ∀ h ∈ s.active ++ s.spare.toList, s.Found h
  distinct : (s.active ++ s.spare.toList).Pairwise fun g h =>
    (s.segment g).path ≠ (s.segment h).path ∧ (s.segment g).file ≠ (s.segment h).file
  empty : ∀ h, s.spare = some h → s.disk.size (s.segment h).path = .ok 0
  full : ∀ h ∈ s.active, h ∉ torn → s.disk.size (s.segment h).path = .ok (s.segment h).cursor

theorem Mirrored.inStep (hs : s.Mirrored [] torn) : s.InStep torn := by
  have hown : s.own [] = s.active ++ s.spare.toList := by rw [own, List.append_nil]
  have hmem : ∀ h ∈ s.active ++ s.spare.toList, h ∈ s.own [] := fun h hh => by rw [hown]; exact hh
  have hfound : ∀ h ∈ s.active ++ s.spare.toList, s.Found h := fun h hh => hs.found h (hmem h hh)
  have hknown : ∀ h ∈ s.active ++ s.spare.toList, h < s.table.size :=
    fun h hh => hs.known h (hmem h hh)
  have hdistinct : (s.active ++ s.spare.toList).Pairwise fun g h =>
      (s.segment g).path ≠ (s.segment h).path ∧ (s.segment g).file ≠ (s.segment h).file := by
    have hnodup : (s.active ++ s.spare.toList).Nodup := hown ▸ hs.distinct
    refine hnodup.imp_of_mem fun {g h} hg hh hne => ?_
    have hfile := hs.file_ne (hknown g hg) (hknown h hh) hne
    -- one path does not lead to two files
    refine ⟨fun hpath => hfile ?_, hfile⟩
    obtain ⟨p, hp⟩ := hfound g hg
    obtain ⟨q, hq⟩ := hfound h hh
    rw [hpath, hq, Except.ok.injEq, Prod.mk.injEq, Node.file.injEq] at hp
    exact hp.2.symm
  refine ⟨?_, hfound, hdistinct, fun h hh => ?_, fun h hh hout => ?_⟩
  · obtain ⟨found, hlisted⟩ := exists_segmentFiles hs.directory s.settings.stem
    refine ⟨found, hlisted, (List.perm_ext_iff_of_nodup (nodup_segmentFiles hs.disk hlisted) ?_).mpr
      ?_⟩
    · exact List.pairwise_map.mpr (hdistinct.imp fun hne he => hne.1 (congrArg Prod.snd he))
    · rintro ⟨name, p⟩
      rw [List.mem_map]
      constructor
      · intro he
        obtain ⟨h, hh, rfl⟩ := hs.owned p ((lists_iff hs.disk hlisted).mpr ⟨name, he⟩)
        rw [hown] at hh
        rw [(hfound h hh).mem_segmentFiles hs.toFiled (hknown h hh) hs.stem hlisted] at he
        exact ⟨h, hh, by rw [he]; rfl⟩
      · rintro ⟨h, hh, he⟩
        cases he
        exact ((hfound h hh).mem_segmentFiles hs.toFiled (hknown h hh) hs.stem hlisted _).mpr rfl
  · obtain ⟨q, hq⟩ := hfound h (by simp [hh])
    rw [Disk.size_of_find hq, hs.empty h hh]
    rfl
  · obtain ⟨q, hq⟩ := hfound h (List.mem_append_left _ hh)
    rw [Disk.size_of_find hq, hs.full h (hs.known_active hh) hout]

/-- **A store and its directory stay in step.** Let any requests be served, one after the other, by
a store that was just opened on a directory without segment files, with a stem without separators.
Files may fail to be created, and writes and syncs may fail, but removals do not. The store and its
directory are in step then. If the use of the store is ended now, and that succeeds, the
segment files are those of the active segments; and the removal of all segments succeeds and leaves
no segment file. -/
theorem directory_in_step {settings : Settings} {now : UInt64} {disk : Disk} {monitor : Monitor}
    {opened : Store} (hopen : onDirectory settings now disk monitor = .ok opened)
    (hdisk : disk.WellFormed) (hstem : '/' ∉ settings.stem.toList)
    (hempty : segmentFiles disk settings.directory settings.stem = .ok [])
    (hremovable : ∀ f ∈ disk.faults.remove, f = none) (requests : List Request) :
    let s := opened.serveAll requests
    s.settings = settings ∧ s.InStep (opened.failedWrites requests) ∧
      (s.finish.1 = .ok () → s.finish.2.spare = none ∧
        ∃ found, segmentFiles s.finish.2.disk settings.directory settings.stem = .ok found ∧
          found.Perm (s.finish.2.active.map s.finish.2.entry)) ∧
      s.wipe.1 = .ok () ∧
      segmentFiles s.wipe.2.disk settings.directory settings.stem = .ok [] := by
  intro s
  have hs : s.Mirrored [] (opened.failedWrites requests ++ []) :=
    (mirrored_onDirectory hopen hdisk hstem hempty hremovable).serveAll requests
  rw [List.append_nil] at hs
  have hsettings : s.settings = settings := by
    obtain ⟨ids, he, -⟩ := onDirectory_cases hopen
    rw [(housed_onDirectory hopen hdisk).settings_serveAll requests, he]
  obtain ⟨hfinished, hnone⟩ := hs.finish (Prod.eta s.finish).symm
  obtain ⟨hwiped, hwipe⟩ := hs.wipe (Prod.eta s.wipe).symm
  refine ⟨hsettings, hs.inStep, fun hok => ⟨hnone hok, ?_⟩, hwiped, ?_⟩
  · obtain ⟨found, hlisted, hperm⟩ := hfinished.inStep.listed
    rw [show s.finish.2.settings = settings from (hs.settings_serve .finish).trans hsettings]
      at hlisted
    rw [hnone hok, Option.toList_none, List.append_nil] at hperm
    exact ⟨found, hlisted, hperm⟩
  · obtain ⟨found, hlisted, hperm⟩ := hwipe.inStep.listed
    obtain ⟨disk, he⟩ := wipe_eq s
    rw [he] at hlisted hperm ⊢
    rw [hperm.eq_nil] at hlisted
    rw [← hsettings]
    exact hlisted

/-- A spare cannot be created at first, and a write fails; after that a segment is discarded. Two
active segments are left with a spare, and their three files are all that is listed. -/
theorem directory_in_step_despite_faults :
    let opened := blank { directory := ⟨[Path.dot]⟩, segmentSize := 30 } 5
      { create := [none, some .device], write := [none, some (3, .device)] }
    let requests : List Request := [.append (.raw [⟨1⟩] [7, 8, 9]), .stockSpare, .stockSpare,
      .append (.raw [⟨1⟩] [4, 5, 6]), .append (.raw [⟨2⟩] [1, 2, 3]), .stockSpare,
      .append (.raw [⟨2⟩] [1, 2, 3]), .append (.raw [⟨3⟩] [1, 2, 3]), .stockSpare,
      .discard ⟨2⟩ ⟨7, 30⟩]
    let s := opened.serveAll requests
    s.active = [0, 2] ∧ s.spare = some 3 ∧ opened.failedWrites requests = [0] ∧ s.InStep [0] ∧
      s.finish.2.spare = none ∧
      segmentFiles s.wipe.2.disk ⟨[Path.dot]⟩ defaultStem = .ok [] := by
  intro opened requests s
  have hfailed : opened.failedWrites requests = [0] := by decide +kernel
  have hopen : onDirectory opened.settings 5 _ _ = .ok opened := onDirectory_blank rfl 5 _
  obtain ⟨-, hstep, hfinish, -, hwiped⟩ := directory_in_step hopen (Disk.wellFormed_empty _)
    (by decide +kernel) (segmentFiles_blank _ _) (fun f hf => absurd hf List.not_mem_nil) requests
  obtain ⟨hnone, -⟩ := hfinish (by decide +kernel)
  refine ⟨by decide +kernel, by decide +kernel, hfailed, ?_, hnone, hwiped⟩
  rw [← hfailed]
  exact hstep

end SegmentLog.Store
