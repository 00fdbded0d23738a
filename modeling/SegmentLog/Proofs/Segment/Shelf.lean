import SegmentLog.Proofs.Replay.Accepting
import SegmentLog.Proofs.Segment.Listing

/-!
# The shelf of a log

A shelf is what the directory of a log holds: one volume for each segment, by its number and the
file it lies in. `Disk.Shelves` says that a directory holds just the volumes of a shelf and that
they are listed in this order; it follows the shelf when a volume is added at its end or taken
away, and says which records a replay of the whole would apply.

* `Shelves.attach`, `Shelves.remove` — volumes come and go;
* `stored_congr`, `stored_sublist` — the records on a shelf are those of its volumes;
* `ascending_stored` — they are in the order of their positions.
-/

namespace SegmentLog

/-! ## Files that come and go in a tree -/

namespace Disk

theorem Attached.keeps_back {d d' : Disk} {D : DirectoryId} {n : FileName}
    (h : Attached d d' D n) : Keeps d' d := by
  refine ⟨h.working.symm, fun {E m id} hl => ?_⟩
  rw [h.lookup] at hl
  split at hl
  · cases hl
  · exact hl

theorem Cleared.keeps_back {d d' : Disk} {D : DirectoryId} {names : List FileName}
    (h : Cleared d d' D names) : Keeps d' d := by
  refine ⟨h.working.symm, fun {E m id} hl => ?_⟩
  rw [h.lookup] at hl
  split at hl
  · cases hl
  · exact hl

theorem Detached.keeps_back {d d' : Disk} {D : DirectoryId} {n : FileName}
    (h : Detached d d' D n) : Keeps d' d := h.cleared.keeps_back

/-- Directories that stay are found where they were. -/
theorem Keeps.isDirectory {d d' : Disk} (h : Keeps d d') {p : Path}
    (hp : d.isDirectory p = true) : d'.isDirectory p = true := by
  obtain ⟨q, D, hq⟩ := isDirectory_iff.mp hp
  obtain ⟨hl, hn⟩ := find_eq_ok_iff.mp hq
  refine isDirectory_iff.mpr ⟨q, D, find_eq_ok_iff.mpr ⟨h.locate hl, ?_⟩⟩
  unfold node? at hn ⊢
  split at hn
  · exact hn
  · exact h.lookup hn

/-- A file that is found after one was added was found before, or is the new one. -/
theorem Attached.find_cases {d d' : Disk} {D : DirectoryId} {m : FileName} {p : Path} {q : Place}
    {id : FileId} (h : Attached d d' D m) (hf : d'.find p = .ok (q, .file id)) :
    d.find p = .ok (q, .file id) ∨ q.name = some m := by
  obtain ⟨n, hn, hlookup⟩ := name_of_find_file hf
  rw [h.lookup] at hlookup
  split at hlookup
  · rename_i hnew
    rw [hn, hnew.2.2]
    exact .inr rfl
  · refine .inl (find_eq_ok_iff.mpr ⟨h.keeps_back.locate (find_eq_ok_iff.mp hf).1, ?_⟩)
    rw [node?_of_name hn]
    exact hlookup

/-- A file that is found after some were taken out was found before, at another place. -/
theorem Cleared.find_back {d d' : Disk} {D : DirectoryId} {names : List FileName} {p : Path}
    {q : Place} {id : FileId} (h : Cleared d d' D names) (hf : d'.find p = .ok (q, .file id)) :
    d.find p = .ok (q, .file id) ∧ ∀ n ∈ names, ¬ (q.way.here = D ∧ q.name = some n) := by
  obtain ⟨n, hname, hlookup⟩ := name_of_find_file hf
  rw [h.lookup] at hlookup
  split at hlookup
  · cases hlookup
  · rename_i hother
    refine ⟨find_eq_ok_iff.mpr ⟨h.keeps_back.locate (find_eq_ok_iff.mp hf).1, ?_⟩, ?_⟩
    · rw [node?_of_name hname]
      exact hlookup
    · rintro m hm ⟨rfl, hq⟩
      rw [hname] at hq
      exact hother ⟨rfl, Option.some.inj hq ▸ hm⟩

theorem Detached.find_back {d d' : Disk} {D : DirectoryId} {m : FileName} {p : Path} {q : Place}
    {id : FileId} (h : Detached d d' D m) (hf : d'.find p = .ok (q, .file id)) :
    d.find p = .ok (q, .file id) ∧ ¬ (q.way.here = D ∧ q.name = some m) :=
  ⟨(h.cleared.find_back hf).1, (h.cleared.find_back hf).2 m (List.mem_singleton_self m)⟩

theorem SameTree.segmentFiles {d d' : Disk} (h : SameTree d d') (directory : Path) (stem : String) :
    SegmentLog.segmentFiles d' directory stem = SegmentLog.segmentFiles d directory stem := by
  simp only [SegmentLog.segmentFiles, segmentFile?, h.entries, h.isFile]

end Disk

/-- Where the path of a segment file leads, if it leads anywhere. -/
theorem SegmentName.name_of_locate {directory : Path} {stem : String}
    (hstem : '/' ∉ stem.toList) {d : Disk} {n : SegmentName} {q : Place}
    (h : d.locate (n.pathIn directory stem) = .ok q) :
    q.name = some (n.fileName stem) ∧ Disk.IsName (n.fileName stem) := by
  obtain ⟨front, hjoin⟩ := directory.exists_front_join
  have hseparator : Path.separator ∉ n.fileName stem := by
    rw [fileName_eq, List.mem_append, Utf8.separator_mem_encode_iff]
    exact fun h => h.elim hstem n.separator_not_mem_tag
  obtain ⟨hblank, hup⟩ := isBlank_append_tag (Utf8.encode stem) n
  rw [← fileName_eq] at hblank hup
  have hname : q.name = some (n.fileName stem) := by
    have hl := h
    unfold Disk.locate at hl
    split at hl
    · cases hl
    · rw [show (n.pathIn directory stem).stretches = front ++ [n.fileName stem] from
        hjoin _ hseparator, Disk.follow_append] at hl
      split at hl
      · cases hl
      · exact (Disk.follow_singleton_name hblank hup hl).1
  exact ⟨hname, Disk.isName_locate h hname⟩

/-! ## Volumes -/

/-- A segment file of the present version: the number of its segment, and its identity. -/
structure Volume where
  id : SegmentId
  file : FileId

namespace Volume

/-- The path of a volume. -/
def path (v : Volume) (directory : Path) (stem : String) : Path :=
  (SegmentName.ofId v.id).pathIn directory stem

/-- A volume as it is listed. -/
def entry (directory : Path) (stem : String) (v : Volume) : SegmentName × Path :=
  (.ofId v.id, v.path directory stem)

end Volume

namespace Disk

/-- Whether a directory holds just the volumes of a shelf as its segment files, which are listed in
the order of the shelf and can be read. -/
structure Shelves (d : Disk) (directory : Path) (stem : String) (shelf : List Volume) : Prop where
  listed : segmentFiles d directory stem = .ok (shelf.map (·.entry directory stem))
  ascending : shelf.Pairwise fun u v => u.id < v.id ∧ u.file < v.file
  found : ∀ v ∈ shelf, ∃ q, d.find (v.path directory stem) = .ok (q, .file v.file)
  known : ∀ v ∈ shelf, v.file < d.files.size
  readable : ∀ v ∈ shelf, d.fault? v.file = none

variable {d d' : Disk} {directory : Path} {stem : String} {shelf xs ys : List Volume} {v : Volume}

theorem Shelves.isDirectory (h : d.Shelves directory stem shelf) :
    d.isDirectory directory = true := isDirectory_of_segmentFiles h.listed

/-- A volume is read as it stands. -/
theorem Shelves.contents (h : d.Shelves directory stem shelf) (hv : v ∈ shelf) :
    d.contents (v.path directory stem) = .ok (d.content v.file) := by
  obtain ⟨q, hq⟩ := h.found v hv
  exact contents_of_find hq (h.readable v hv)

theorem bytes_ne_nil_of_isDirectory (h : d.isDirectory directory = true) :
    directory.bytes ≠ [] := by
  obtain ⟨q, D, hq⟩ := isDirectory_iff.mp h
  exact bytes_ne_nil_of_locate (find_eq_ok_iff.mp hq).1

theorem Shelves.of_tree (h : d.Shelves directory stem shelf) (htree : SameTree d d')
    (hfiles : d.files.size ≤ d'.files.size) : d'.Shelves directory stem shelf where
  listed := by rw [htree.segmentFiles]; exact h.listed
  ascending := h.ascending
  found v hv := by rw [htree.find]; exact h.found v hv
  known v hv := Nat.lt_of_lt_of_le (h.known v hv) hfiles
  readable v hv := by rw [htree.fault]; exact h.readable v hv

/-- A new volume of a higher number stands at the end of the shelf. -/
theorem Shelves.attach (h : d.Shelves directory stem shelf) (hd : d.WellFormed)
    (hstem : '/' ∉ stem.toList) {q : Place} {n : FileName}
    (hattached : Attached d d' q.way.here n) (hq : d.locate (v.path directory stem) = .ok q)
    (hn : q.name = some n) (hfile : v.file = d.files.size) (hlast : ∀ u ∈ shelf, u.id < v.id) :
    d'.Shelves directory stem (shelf ++ [v]) := by
  have hdirectory := bytes_ne_nil_of_isDirectory h.isDirectory
  obtain ⟨hname, hisName⟩ := SegmentName.name_of_locate hstem hq
  have hnew := hattached.find_new hd hq hn
  have hascending : (shelf ++ [v]).Pairwise fun u v => u.id < v.id ∧ u.file < v.file := by
    refine List.pairwise_append.mpr ⟨h.ascending, List.pairwise_singleton _ _, fun u hu w hw => ?_⟩
    rw [List.mem_singleton.mp hw, hfile]
    exact ⟨hlast u hu, h.known u hu⟩
  refine ⟨?_, hascending, fun u hu => ?_, fun u hu => ?_, fun u hu => ?_⟩
  · refine segmentFiles_eq (hattached.wellFormed hd) (hattached.keeps.isDirectory h.isDirectory)
      (List.pairwise_map.mpr (hascending.imp And.left)) fun name p => ?_
    rw [List.map_append, List.mem_append, mem_segmentFiles_iff hd h.listed]
    constructor
    · rintro (⟨m, r, id, hm, hp, hfind, hpath⟩ | hv)
      · exact ⟨m, r, id, hm, hp, hattached.find_old hfind, hpath⟩
      · cases List.mem_singleton.mp hv
        exact ⟨_, q, _, hisName, rfl, hnew, SegmentName.ofPath_join directory hisName⟩
    · rintro ⟨m, r, id, hm, rfl, hfind, hpath⟩
      rcases hattached.find_cases hfind with hfind | hr
      · exact .inl ⟨m, r, id, hm, rfl, hfind, hpath⟩
      · -- the new file is the only one of its name
        have hl := (find_eq_ok_iff.mp hfind).1
        obtain ⟨hm', -⟩ := locate_join hdirectory hm hl
        rw [hr, ← hn, hname] at hm'
        cases hm'
        rw [SegmentName.ofPath_join directory hisName] at hpath
        cases hpath
        exact .inr (List.mem_singleton_self _)
  · rcases List.mem_append.mp hu with hu | hu
    · obtain ⟨r, hr⟩ := h.found u hu
      exact ⟨r, hattached.find_old hr⟩
    · rw [List.mem_singleton.mp hu, hfile]
      exact ⟨q, hnew⟩
  · rw [hattached.files, Array.size_push]
    rcases List.mem_append.mp hu with hu | hu
    · exact Nat.lt_succ_of_lt (h.known u hu)
    · rw [List.mem_singleton.mp hu, hfile]
      exact Nat.lt_succ_self _
  · rcases List.mem_append.mp hu with hu | hu
    · rw [hattached.fault?]
      exact h.readable u hu
    · rw [List.mem_singleton.mp hu, hfile, hattached.fault?]
      exact d.fault?_size

/-- A volume that is taken away leaves the others in their order. -/
theorem Shelves.detach (h : d.Shelves directory stem (xs ++ v :: ys)) (hd : d.WellFormed)
    (hstem : '/' ∉ stem.toList) {q : Place} {n : FileName} {id : FileId}
    (hdetached : Detached d d' q.way.here n)
    (hq : d.find (v.path directory stem) = .ok (q, .file id)) (hn : q.name = some n) :
    d'.Shelves directory stem (xs ++ ys) := by
  have hsub : (xs ++ ys).Sublist (xs ++ v :: ys) :=
    (List.Sublist.refl xs).append (List.sublist_cons_self v ys)
  have hname : ∀ (u : Volume) (r : Place), d.locate (u.path directory stem) = .ok r →
      r.name = some ((SegmentName.ofId u.id).fileName stem) ∧
        IsName ((SegmentName.ofId u.id).fileName stem) :=
    fun u r hr => SegmentName.name_of_locate hstem hr
  obtain ⟨hqname, hisName⟩ := hname v q (find_eq_ok_iff.mp hq).1
  rw [hqname] at hn
  cases hn
  -- the numbers of the others are different, and so are their names
  have hother : ∀ u ∈ xs ++ ys, (SegmentName.ofId u.id).fileName stem ≠
      (SegmentName.ofId v.id).fileName stem := by
    intro u hu he
    have hid : u.id = v.id := congrArg SegmentName.id (SegmentName.fileName_injective he)
    obtain ⟨-, hvys, hxsv⟩ := List.pairwise_append.mp h.ascending
    rcases List.mem_append.mp hu with hu | hu
    · exact UInt64.lt_irrefl _ (hid ▸ (hxsv u hu v List.mem_cons_self).1)
    · exact UInt64.lt_irrefl _ (hid ▸ ((List.pairwise_cons.mp hvys).1 u hu).1)
  have hfind : ∀ u ∈ xs ++ ys, ∃ r, d'.find (u.path directory stem) = .ok (r, .file u.file) := by
    intro u hu
    obtain ⟨r, hr⟩ := h.found u (hsub.subset hu)
    exact ⟨r, hdetached.find_other hr (hname u r (find_eq_ok_iff.mp hr).1).1 (hother u hu)⟩
  refine ⟨?_, h.ascending.sublist hsub, hfind, fun u hu => ?_, fun u hu => ?_⟩
  · refine segmentFiles_eq (hdetached.wellFormed hd) (hdetached.keeps.isDirectory h.isDirectory)
      (List.pairwise_map.mpr ((h.ascending.sublist hsub).imp And.left)) fun name p => ?_
    constructor
    · intro hmem
      obtain ⟨u, hu, he⟩ := List.mem_map.mp hmem
      cases he
      obtain ⟨r, hr⟩ := hfind u hu
      obtain ⟨r', hr'⟩ := h.found u (hsub.subset hu)
      obtain ⟨-, hisName⟩ := hname u r' (find_eq_ok_iff.mp hr').1
      exact ⟨_, r, _, hisName, rfl, hr, SegmentName.ofPath_join directory hisName⟩
    · rintro ⟨m, r, id', hm, hp, hr, hpath⟩
      obtain ⟨hr', hplace⟩ := hdetached.find_back hr
      have hmem := (mem_segmentFiles_iff hd h.listed).mpr ⟨m, r, id', hm, hp, hr', hpath⟩
      obtain ⟨u, hu, he⟩ := List.mem_map.mp hmem
      cases he
      refine List.mem_map.mpr ⟨u, ?_, rfl⟩
      rw [List.mem_append, List.mem_cons] at hu
      rcases hu with hu | rfl | hu
      · exact List.mem_append_left _ hu
      · change d.find (u.path directory stem) = _ at hr'
        rw [hq] at hr'
        cases hr'
        exact absurd ⟨rfl, hqname⟩ hplace
      · exact List.mem_append_right _ hu
  · rw [hdetached.files]
    exact h.known u (hsub.subset hu)
  · rw [fault?_of_files hdetached.files]
    exact h.readable u (hsub.subset hu)

/-- The removal of a volume takes it from the shelf, if removals do not fail. -/
theorem Shelves.remove (h : d.Shelves directory stem (xs ++ v :: ys)) (hd : d.WellFormed)
    (hstem : '/' ∉ stem.toList) (hfaults : Faults.next? d.faults.remove = none)
    {r : Except DiskError Unit} (hr : d.remove (v.path directory stem) = (r, d')) :
    r = .ok () ∧ d'.WellFormed ∧ d'.files = d.files ∧ d'.Shelves directory stem (xs ++ ys) := by
  obtain ⟨p, hp⟩ := h.found v (List.mem_append_right _ List.mem_cons_self)
  have hok : r = .ok () := by rw [← remove_ok hp hfaults, hr]
  obtain ⟨-, ⟨e, he, -⟩ | ⟨q, n, id, hr', hq, hn, hdetached⟩⟩ := remove_cases hr
  · rw [hok] at he
    cases he
  · exact ⟨hr', hdetached.wellFormed hd, hdetached.files, h.detach hd hstem hdetached hq hn⟩

/-! ## Records -/

/-- The records that a replay of a volume applies. -/
def recordsOf (d : Disk) (v : Volume) : List (Position × Bytes) :=
  positioned v.id (Scan.ofBytes (d.content v.file)).records

/-- The frames of a volume are its records, as far as no whole frame follows them. -/
theorem recordsOf_spell {v : Volume} {payloads : List Bytes}
    (hall : ∀ x ∈ payloads, Frame.Framable x) {rest : Bytes} {tail : Tail}
    (htail : tail.Describes rest) (h : d.content v.file = Frame.spell payloads ++ rest) :
    d.recordsOf v = positioned v.id (Frame.layOut 0 payloads) := by
  unfold recordsOf
  rw [h, Scan.ofBytes_spell hall htail]

/-- The records that a replay of a whole shelf applies. -/
def stored (d : Disk) (shelf : List Volume) : List (Position × Bytes) := shelf.flatMap d.recordsOf

theorem stored_append (d : Disk) (xs ys : List Volume) :
    d.stored (xs ++ ys) = d.stored xs ++ d.stored ys := List.flatMap_append

theorem stored_cons (d : Disk) (v : Volume) (shelf : List Volume) :
    d.stored (v :: shelf) = d.recordsOf v ++ d.stored shelf := List.flatMap_cons

/-- Files that hold what they held give the same records. -/
theorem stored_congr (h : ∀ v ∈ shelf, d'.content v.file = d.content v.file) :
    d'.stored shelf = d.stored shelf := by
  induction shelf with
  | nil => rfl
  | cons v shelf ih =>
    obtain ⟨hv, hshelf⟩ := List.forall_mem_cons.mp h
    rw [stored_cons, stored_cons, ih hshelf, recordsOf, recordsOf, hv]

/-- An empty file gives no record. -/
theorem recordsOf_of_empty (h : d.content v.file = []) : d.recordsOf v = [] := by
  have hstop : Frame.first [] = .stop .clean := rfl
  rw [recordsOf, h, Scan.ofBytes, Scan.ofBytesAt_stop hstop]
  rfl

theorem segment_of_mem_recordsOf {r : Position × Bytes} (h : r ∈ d.recordsOf v) :
    r.1.segment = v.id := by
  obtain ⟨_, _, rfl⟩ := List.mem_map.mp h
  rfl

theorem segment_mem_of_mem_stored {r : Position × Bytes} (h : r ∈ d.stored shelf) :
    r.1.segment ∈ shelf.map (·.id) := by
  obtain ⟨v, hv, hr⟩ := List.mem_flatMap.mp h
  rw [segment_of_mem_recordsOf hr]
  exact List.mem_map_of_mem hv

/-- Volumes that stay while others are taken away hold the records that have their numbers. -/
theorem stored_sublist (d : Disk) (h : xs.Sublist ys) (hdistinct : (ys.map (·.id)).Nodup) :
    d.stored xs = (d.stored ys).filter fun r => r.1.segment ∈ xs.map (·.id) := by
  induction h with
  | slnil => rfl
  | @cons xs ys v h ih =>
    obtain ⟨hv, hdistinct⟩ := List.nodup_cons.mp hdistinct
    have hnone : (d.recordsOf v).filter (fun r => r.1.segment ∈ xs.map (·.id)) = [] := by
      refine List.filter_eq_nil_iff.mpr fun r hr hmem => ?_
      rw [segment_of_mem_recordsOf hr, decide_eq_true_eq] at hmem
      exact hv ((h.map _).subset hmem)
    rw [stored_cons, List.filter_append, hnone, List.nil_append]
    exact ih hdistinct
  | cons_cons v h ih =>
    obtain ⟨hv, hdistinct⟩ := List.nodup_cons.mp hdistinct
    rw [stored_cons, stored_cons, List.filter_append, ih hdistinct]
    congr 1
    · refine (List.filter_eq_self.mpr fun r hr => ?_).symm
      rw [segment_of_mem_recordsOf hr]
      simp
    · -- no record behind the first volume has its number
      refine List.filter_congr fun r hr => ?_
      have hne : r.1.segment ≠ v.id := by
        intro he
        have hmem := segment_mem_of_mem_stored hr
        rw [he] at hmem
        exact hv hmem
      simp [hne]

/-- The records on a shelf are in the order of their positions. -/
theorem Shelves.ascending_stored (h : d.Shelves directory stem shelf) :
    (d.stored shelf).Pairwise fun r r' => r.1 < r'.1 :=
  ascending_positioned (fun _ => Scan.ascending_records _) (h.ascending.imp And.left)

end Disk

end SegmentLog
