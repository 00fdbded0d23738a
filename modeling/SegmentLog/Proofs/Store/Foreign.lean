import SegmentLog.Proofs.Store.Reopening

/-!
# Segment files that are not the store's

A store hands out numbers in ascending order, and puts no file on its disk but those of the
segments that get them. So whatever segment file it finds in its directory has a number that is
not handed out again; and a file that is not one of its own segments now is not one of them later
either, and can be removed.

* `Issues` — what all that a store does has in common in this;
* `Numbered.issues`, `Numbered.listed` — what is known about the files that are listed;
* `Listed.foreign` — what the check of a file says about it;
* `Foreign.issues` — it stays true whatever the store does;
* `Foreign.remove` — such a file can be removed.
-/

namespace SegmentLog

/-! ## Numbers that are not handed out again -/

/-- Whether a number lies before the next one, or is the last that there is. -/
def IdSource.Passed (s : IdSource) (id : SegmentId) : Prop := id < s.next ∨ ∀ i : SegmentId, i ≤ id

namespace IdSource

variable {s s' : IdSource} {id : SegmentId}

theorem Passed.mono (h : s.Passed id) (hle : s.next ≤ s'.next) : s'.Passed id :=
  h.imp_left fun hlt => UInt64.lt_of_lt_of_le hlt hle

/-- A number that is handed out, while there are still numbers after it, was not passed before. -/
theorem Passed.ne (h : s.Passed id) {i : SegmentId} (hle : s.next ≤ i) (hlt : i < s'.next) :
    id ≠ i := by
  rintro rfl
  rcases h with h | h
  · exact UInt64.not_le.mpr h hle
  · exact UInt64.not_le.mpr hlt (h s'.next)

theorem passed_foldl {found : List (SegmentName × Path)} {e : SegmentName × Path} (he : e ∈ found)
    (s : IdSource) : (found.foldl (fun s e => s.keepAbove e.1.id) s).Passed e.1.id := by
  by_cases hlast : ∀ i : SegmentId, i ≤ e.1.id
  · exact .inr hlast
  · obtain ⟨i, hi⟩ := not_forall.mp hlast
    exact .inl (lt_foldl he (UInt64.not_le.mp hi) s)

end IdSource

/-! ## Names of segment files -/

theorem Utf8.encode_of_decode? {bs : Bytes} {text : String} (h : decode? bs = some text) :
    encode text = bs := by
  unfold decode? String.fromUTF8? at h
  split at h
  · cases h
    rfl
  · cases h

/-- A file in a directory has no segment name of a stem with a separator in it. -/
theorem SegmentName.stem_of_ofPath {directory : Path} {stem : String} {n : FileName}
    (hn : Disk.IsName n) {name : SegmentName}
    (h : ofPath stem (directory.join ⟨n⟩) = .ok name) : '/' ∉ stem.toList := by
  rw [ofPath, directory.fileName?_join hn, Option.bind_some] at h
  split at h
  · rename_i text htext
    intro hmem
    have hprefix : ∃ rest, stem.toList ++ rest = text.toList := by
      unfold parse parse? middle? at h
      cases hp : stem.toList.isPrefixOf? text.toList with
      | none => rw [hp] at h; cases h
      | some rest => exact ⟨rest, List.isPrefixOf?_eq_some_iff_append_eq.mp hp⟩
    obtain ⟨rest, hrest⟩ := hprefix
    refine hn.noSeparator ?_
    rw [← Utf8.encode_of_decode? htext, Utf8.separator_mem_encode_iff, ← hrest]
    exact List.mem_append_left _ hmem
  · cases h

/-- Whether no file is found on a disk that was not found before. -/
def Disk.AddsNone (d d' : Disk) : Prop :=
  ∀ p q file, d'.find p = .ok (q, .file file) → d.find p = .ok (q, .file file)

theorem Disk.SameTree.addsNone {d d' : Disk} (h : SameTree d d') : d.AddsNone d' := by
  intro p q file hp
  rwa [h.find] at hp

theorem Disk.addsNone_remove {d d' : Disk} {p : Path} {r : Except DiskError Unit}
    (h : d.remove p = (r, d')) : d.AddsNone d' := by
  obtain ⟨-, ⟨e, -, htree, -⟩ | ⟨q, n, id, -, -, -, hdetached⟩⟩ := remove_cases h
  · exact htree.addsNone
  · exact fun _ _ _ hp => (hdetached.find_back hp).1

namespace Store

variable {s s' s'' : Store} {loose loose' : List Handle}

/-! ## What a store issues -/

/-- Whether a store has handed out numbers in ascending order only, and has put no file on its disk
but with the name of a segment that got one of them. -/
structure Issues (s s' : Store) : Prop where
  settings : s'.settings = s.settings
  ids : s.ids.next ≤ s'.ids.next
  size : s.table.size ≤ s'.table.size
  old : ∀ k < s.table.size, (s'.segment k).id = (s.segment k).id
  new : ∀ k, s.table.size ≤ k → k < s'.table.size → s.ids.next ≤ (s'.segment k).id
  files : ∀ p q file, s'.disk.find p = .ok (q, .file file) → s.disk.find p = .ok (q, .file file) ∨
    ∃ (i : SegmentId) (d : Disk) (r : Place), i < s'.ids.next ∧
      d.locate ((SegmentName.ofId i).pathIn s.settings.directory s.settings.stem) = .ok r ∧
      r.name = q.name

theorem Issues.refl (s : Store) : s.Issues s where
  settings := rfl
  ids := UInt64.le_refl _
  size := Nat.le_refl _
  old _ _ := rfl
  new _ hle hlt := absurd hlt (Nat.not_lt.mpr hle)
  files _ _ _ h := .inl h

/-- Whatever makes no segment and no file can be done besides. -/
theorem Issues.congr (h : s.Issues s') (hsettings : s''.settings = s'.settings)
    (hids : s'.ids.next ≤ s''.ids.next) (hsize : s''.table.size = s'.table.size)
    (hsame : ∀ k < s'.table.size, (s'.segment k).SameFile (s''.segment k))
    (hnone : s'.disk.AddsNone s''.disk) : s.Issues s'' where
  settings := hsettings.trans h.settings
  ids := UInt64.le_trans h.ids hids
  size := by rw [hsize]; exact h.size
  old k hk := (hsame k (Nat.lt_of_lt_of_le hk h.size)).id.trans (h.old k hk)
  new k hle hlt := by
    rw [hsize] at hlt
    rw [(hsame k hlt).id]
    exact h.new k hle hlt
  files p q file hp := by
    refine (h.files p q file (hnone p q file hp)).imp_right ?_
    rintro ⟨i, d, r, hi, hr⟩
    exact ⟨i, d, r, UInt64.lt_of_lt_of_le hi hids, hr⟩

/-- Segments change places besides. -/
theorem Issues.of_eq (h : s.Issues s') (hsettings : s''.settings = s'.settings)
    (hids : s'.ids.next ≤ s''.ids.next) (htable : s''.table = s'.table)
    (hdisk : s''.disk = s'.disk) : s.Issues s'' := by
  refine h.congr hsettings hids (by rw [htable]) (fun k _ => ?_) ?_
  · rw [segment, segment, htable]
    exact .refl _
  · rw [hdisk]
    exact fun _ _ _ hp => hp

/-- One segment changes besides, and keeps its file. -/
theorem Issues.modify (h : s.Issues s') {k : Handle} {f : Segment → Segment}
    (hf : (s'.segment k).SameFile (f (s'.segment k))) {d : Disk} (hnone : s'.disk.AddsNone d) :
    s.Issues { s'.modify k f with disk := d } :=
  h.congr rfl (UInt64.le_refl _) (size_modify s' k f) (sameFile_modify hf) hnone

theorem Issues.sealOff (h : s.Issues s') (k : Handle) : s.Issues (s'.sealOff k) :=
  h.modify (Segment.keeps_sealOff _).toSameFile fun _ _ _ hp => hp

theorem Issues.giveUp (h : s.Issues s') (k : Handle) (cause : DiskError) :
    s.Issues (s'.giveUp k cause).2 :=
  (h.sealOff k).of_eq rfl (UInt64.le_refl _) rfl rfl

theorem Issues.activate (h : s.Issues s') (k : Handle) : s.Issues (s'.activate k) := by
  obtain ⟨s₁, mail, he, ⟨-, rfl⟩ | ⟨t, -, rfl⟩⟩ := activate_eq s' k
  · rw [he]
    exact h.of_eq rfl (UInt64.le_refl _) rfl rfl
  · rw [he]
    exact (h.sealOff t).of_eq rfl (UInt64.le_refl _) rfl rfl

theorem issues_remove {p : Path} {r : Except DiskError Unit} {d : Disk}
    (hr : s.disk.remove p = (r, d)) : s.Issues { s with disk := d } :=
  (Issues.refl s).congr rfl (UInt64.le_refl _) rfl (fun _ _ => .refl _) (Disk.addsNone_remove hr)

theorem issues_deleteFile (s : Store) (k : Handle) : s.Issues (s.deleteFile k).2 := by
  cases hd : s.deleteFile k with
  | mk r s' =>
    obtain ⟨d, rfl, hr⟩ := deleteFile_cases hd
    exact issues_remove hr

theorem issues_placeSpare (s : Store) (k : Handle) : s.Issues (s.placeSpare k) := by
  unfold Store.placeSpare
  split
  · exact (Issues.refl s).of_eq rfl (UInt64.le_refl _) rfl rfl
  · exact issues_deleteFile s k

theorem issues_noteFlush (s : Store) (k : Handle) (p : Partition) (upTo : Position) :
    s.Issues (s.noteFlush k p upTo) :=
  (Issues.refl s).modify (f := fun g => g.noteFlush p upTo) (Segment.sameFile_noteFlush _ p upTo)
    fun _ _ _ hp => hp

theorem issues_syncSegment {k : Handle} {force : Bool} {r : Except DiskError Unit}
    (h : s.syncSegment k force = (r, s')) : s.Issues s' := by
  obtain ⟨u, d, rfl, htree, -⟩ := syncSegment_cases h
  exact (Issues.refl s).modify ⟨rfl, rfl, rfl, rfl⟩ htree.addsNone

theorem issues_write {c : Claim} {frame : Bytes} {r : Except DiskError Unit} (hs : s.Filed)
    (h : s.write c frame = (r, s')) (hc : c.handle < s.table.size) : s.Issues s' := by
  obtain ⟨u, d, rfl, hw⟩ := write_cases h hc
  obtain ⟨hframe, -⟩ := Disk.writeAt_cases hw (hs.files _ hc)
  exact (Issues.refl s).modify (f := fun g => { g.release c.offset with unsynced := u })
    ⟨rfl, rfl, rfl, rfl⟩ hframe.tree.addsNone

/-- A new segment gets the next number, and its file the name of this number. -/
theorem issues_newSegment {r : Except DiskError Handle} (h : s.newSegment = (r, s'))
    (hids : s'.ids.next ≠ 0) : s.Issues s' := by
  obtain ⟨d, -, ⟨e, rfl, rfl, htree, -⟩ | ⟨g, q, n, rfl, rfl, hg, hq, hn, hattached⟩⟩ :=
    newSegment_cases h
  · exact (Issues.refl s).congr rfl (UInt64.le_of_lt (IdSource.next_lt_take hids)) rfl
      (fun _ _ => .refl _) htree.addsNone
  have hnext : s.ids.next < s.ids.take.2.next := IdSource.next_lt_take hids
  have hpush := @segment_push s { s with ids := s.ids.take.2, disk := d, table := s.table.push g }
    g rfl
  constructor
  case settings => rfl
  case ids => exact UInt64.le_of_lt hnext
  case size =>
    rw [Array.size_push]
    exact Nat.le_succ _
  case old =>
    intro k hk
    rw [hpush, if_neg (Nat.ne_of_lt hk)]
  case new =>
    intro k hle hlt
    rw [Array.size_push] at hlt
    have hk : k = s.table.size := by omega
    rw [hpush, if_pos hk, hg]
    exact UInt64.le_refl _
  case files =>
    intro p r file hp
    refine (hattached.find_cases hp).imp_right fun hr => ⟨s.ids.next, s.disk, q, hnext, ?_, ?_⟩
    · rw [← hq, hg]
    · rw [hn, hr]

/-- The locked part of an append makes one segment at most. -/
theorem Sound.issues_claim (hs : s.Sound loose) {partitions : List Partition} {length : Nat}
    {r : Except LogError Claim} (h : s.claim partitions length = (r, s'))
    (hids : s'.ids.next ≠ 0) : s.Issues s' := by
  obtain ⟨r₁, s₁, hf, hsame, hcase⟩ := claim_cases h
  rw [hsame] at hids
  have hroll : s.rollOver = (r₁, s₁) → s.Issues s₁ := by
    intro hr
    rcases hs.rollOver_cases hr with ⟨k, -, -, rfl, rfl⟩ |
      ⟨-, made, s₂, hn, ⟨e, rfl, rfl, rfl⟩ | ⟨k, rfl, rfl, rfl⟩⟩
    · have htake : s.Issues { s with spare := none } :=
        (Issues.refl s).of_eq rfl (UInt64.le_refl _) rfl rfl
      exact htake.activate k
    · exact (issues_newSegment hn hids).of_eq rfl (UInt64.le_refl _) rfl rfl
    · rw [ids_activate] at hids
      exact (issues_newSegment hn hids).activate k
  have hchosen : s.Issues s₁ := by
    rcases segmentFor_cases hf with ⟨k, -, -, -, rfl⟩ | hr
    · exact .refl s₁
    · exact hroll hr
  rcases hcase with ⟨_, -, -, rfl⟩ | ⟨k, rfl, ⟨cause, -, rfl⟩ | ⟨-, -, hclaimed⟩⟩
  · exact hchosen
  · exact hchosen.of_eq rfl (UInt64.le_refl _) rfl rfl
  · have hknown : k < s₁.table.size := by
      obtain ⟨hs₁, -, hfor⟩ := hs.segmentFor hf hids
      rcases hfor with ⟨_, hr, -⟩ | ⟨_, hr, ht, -⟩
      · cases hr
      · cases hr
        exact hs₁.known_active (mem_of_tail? ht)
    rw [hclaimed hknown]
    exact hchosen.modify (f := fun g => g.claimed partitions length) ⟨rfl, rfl, rfl, rfl⟩
      fun _ _ _ hp => hp

/-! ## Files that are listed -/

/-- Whether the number of every segment file in the directory has been passed. -/
def Numbered (s : Store) : Prop :=
  s.settings.directory.bytes ≠ [] → ∀ (n : FileName) (q : Place) (file : FileId)
    (name : SegmentName), Disk.IsName n →
    s.disk.find (s.settings.directory.join ⟨n⟩) = .ok (q, .file file) →
    SegmentName.ofPath s.settings.stem (s.settings.directory.join ⟨n⟩) = .ok name →
    s.ids.Passed name.id

theorem Numbered.issues (h : s.Numbered) (hi : s.Issues s') : s'.Numbered := by
  intro hdirectory n q file name hn hfind hname
  rw [hi.settings] at hdirectory hfind hname
  rcases hi.files _ _ _ hfind with hold | ⟨i, d, r, hlt, hr, hplace⟩
  · exact (h hdirectory n q file name hn hold hname).mono hi.ids
  · -- a file with the name of a number that was handed out has just this number
    obtain ⟨hrname, hisName⟩ :=
      SegmentName.name_of_locate (SegmentName.stem_of_ofPath hn hname) hr
    obtain ⟨hqname, -⟩ := Disk.locate_join hdirectory hn (Disk.find_eq_ok_iff.mp hfind).1
    rw [hplace, hqname, Option.some.injEq] at hrname
    rw [hrname, SegmentName.ofPath_join _ hisName] at hname
    cases hname
    exact .inl hlt

theorem numbered_onDirectory {settings : Settings} {now : UInt64} {disk : Disk} {monitor : Monitor}
    (h : onDirectory settings now disk monitor = .ok s) (hd : disk.WellFormed) : s.Numbered := by
  obtain ⟨found, rfl, hfound⟩ := onDirectory_cases h
  intro hdirectory n q file name hn hfind hname
  have hlisted := hfound (by
    obtain ⟨-, r, hr⟩ := Disk.locate_join hdirectory hn (Disk.find_eq_ok_iff.mp hfind).1
    exact Disk.isDirectory_iff.mpr ⟨r, _, hr⟩)
  exact IdSource.passed_foldl
    ((mem_segmentFiles_iff hd hlisted).mpr ⟨n, q, file, hn, rfl, hfind, hname⟩) _

/-- Whether a path is one under which a segment file may have been listed. -/
structure Listed (s : Store) (p : Path) : Prop where
  directory : s.settings.directory.bytes ≠ []
  name : ∃ n, Disk.IsName n ∧ p = s.settings.directory.join ⟨n⟩
  passed : ∃ name, SegmentName.ofPath s.settings.stem p = .ok name ∧ s.ids.Passed name.id

theorem Numbered.listed (h : s.Numbered) (hd : s.disk.WellFormed)
    {found : List (SegmentName × Path)}
    (hf : segmentFiles s.disk s.settings.directory s.settings.stem = .ok found)
    {e : SegmentName × Path} (he : e ∈ found) : s.Listed e.2 := by
  obtain ⟨n, q, file, hn, hp, hfind, hname⟩ := (mem_segmentFiles_iff hd hf).mp he
  have hdirectory := Disk.bytes_ne_nil_of_isDirectory (isDirectory_of_segmentFiles hf)
  refine ⟨hdirectory, ⟨n, hn, hp⟩, e.1, hname, ?_⟩
  rw [hp] at hfind hname
  exact h hdirectory n q file e.1 hn hfind hname

theorem Listed.issues {p : Path} (h : s.Listed p) (hi : s.Issues s') : s'.Listed p := by
  obtain ⟨name, hname, hpassed⟩ := h.passed
  constructor
  · rw [hi.settings]
    exact h.directory
  · rw [hi.settings]
    exact h.name
  · rw [hi.settings]
    exact ⟨name, hname, hpassed.mono hi.ids⟩

theorem Listed.stem {p : Path} (h : s.Listed p) : '/' ∉ s.settings.stem.toList := by
  obtain ⟨n, hn, rfl⟩ := h.name
  obtain ⟨name, hname, -⟩ := h.passed
  exact SegmentName.stem_of_ofPath hn hname

/-! ## Files of others -/

/-- Whether a listed file is none of those of the segments of a store. -/
structure Foreign (s : Store) (loose : List Handle) (p : Path) : Prop extends Listed s p where
  apart : ∀ h ∈ s.active ++ (s.spare.toList ++ loose), (s.segment h).path ≠ p

/-- A file that the store does not own, and that waits for no place, is none of its segments. -/
theorem Listed.foreign {p : Path} (h : s.Listed p) (howns : s.owns p = false)
    (hloose : ∀ k ∈ loose, (s.segment k).path ≠ p) : s.Foreign loose p := by
  refine { h with apart := fun k hk hp => ?_ }
  rw [← List.append_assoc] at hk
  rcases List.mem_append.mp hk with hk | hk
  · rw [owns, List.any_eq_false] at howns
    exact howns k hk (by rw [hp, Path.same_iff])
  · exact hloose k hk hp

/-- A file that is none of those of the segments of a store never becomes one. -/
theorem Foreign.issues {p : Path} (h : s.Foreign loose p) (hi : s.Issues s')
    (hm : s.Moves loose s' loose') (hs : s.Sound loose) (hs' : s'.Sound loose') :
    s'.Foreign loose' p := by
  refine { h.toListed.issues hi with apart := fun k hk hp => ?_ }
  have hknown := hs'.known k hk
  by_cases hold : k < s.table.size
  · -- the segment was there already, and had a place or waited for one
    have hplace : k ∈ s.active ++ (s.spare.toList ++ loose) := by
      rcases List.mem_append.mp hk with hk | hk
      · rcases hm.active k hk with hk | hk | hle
        · exact List.mem_append_left _ hk
        · exact List.mem_append_right _ hk
        · exact absurd hold (Nat.not_lt.mpr hle)
      · rcases hm.fresh k hk with hk | hle
        · exact List.mem_append_right _ hk
        · exact absurd hold (Nat.not_lt.mpr hle)
    refine h.apart k hplace ?_
    rw [← hp, hs.placed k hold, hs'.placed k hknown, hs.named k hold, hs'.named k hknown,
      hi.old k hold, hi.settings]
  · -- the segment is new, and so is its number
    obtain ⟨name, hname, hpassed⟩ := h.passed
    obtain ⟨q, hq⟩ := hs'.found k hk
    have hpath := hs'.placed k hknown
    rw [hs'.named k hknown, hi.settings] at hpath
    have hlocate := (Disk.find_eq_ok_iff.mp hq).1
    rw [hpath] at hlocate
    obtain ⟨-, hisName⟩ := SegmentName.name_of_locate h.stem hlocate
    have hid : name = .ofId (s'.segment k).id := by
      rw [← hp, hpath] at hname
      exact Except.ok.inj (hname.symm.trans (SegmentName.ofPath_join _ hisName))
    rw [hid] at hpassed
    exact hpassed.ne (hi.new k (Nat.le_of_not_lt hold) hknown) (hs'.below k hknown) rfl

/-- The removal of a file that is none of those of the segments of a store leaves it in order. -/
theorem Foreign.remove {p : Path} (h : s.Foreign loose p) (hs : s.Sound loose)
    {r : Except DiskError Unit} {d : Disk} (hr : s.disk.remove p = (r, d)) :
    Sound { s with disk := d } loose := by
  refine hs.of_found (Disk.wellFormed_remove hs.disk hr) (Disk.files_remove hr) fun k hk => ?_
  refine (hs.found k hk).remove_elsewhere hr fun q q' id hq hq' hsame => h.apart k hk ?_
  -- one place in the directory has one name
  obtain ⟨n, hn, rfl⟩ := h.name
  have hpath := hs.placed k (hs.known k hk)
  have hlocate := (Disk.find_eq_ok_iff.mp hq).1
  rw [hpath] at hlocate
  obtain ⟨hqname, -⟩ := SegmentName.name_of_locate h.stem hlocate
  obtain ⟨hqname', -⟩ := Disk.locate_join h.directory hn (Disk.find_eq_ok_iff.mp hq').1
  rw [hsame.2, hqname', Option.some.injEq] at hqname
  rw [hpath, hqname]
  rfl

end Store

end SegmentLog
