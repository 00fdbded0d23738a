import SegmentLog.Proofs.Segment.Shelf

/-!
# Clearing a directory of some files

Files that are removed one after the other go as if they were removed at once: just their names are
taken out of the directory, what is left there stays in its order, and no other directory changes.

* `Cleared.trans` — some files, and then others;
* `Cleared.find_directory` — directories stay where they were;
* `isFile_of_remove`, `not_isFile_remove` — which files are still there after a removal;
* `cleared_removeAll` — files that are there are all removed, if no fault comes between.
-/

namespace SegmentLog.Disk

/-- Removes the files at some paths, one after the other. -/
def removeAll (d : Disk) (paths : List Path) : Disk := paths.foldl (fun d p => (d.remove p).2) d

variable {d d' d'' : Disk} {D : DirectoryId} {names names' : List FileName}

theorem Cleared.refl (d : Disk) (D : DirectoryId) : Cleared d d D [] where
  working := rfl
  size := rfl
  entries := by simp
  elsewhere _ _ := rfl
  files := rfl
  held _ hn := (nomatch hn)

/-- Files that are removed after others. -/
theorem Cleared.trans (h : Cleared d d' D names) (h' : Cleared d' d'' D names') :
    Cleared d d'' D (names ++ names') where
  working := h'.working.trans h.working
  size := h'.size.trans h.size
  entries := by
    rw [h'.entries, h.entries, List.filter_filter]
    refine List.filter_congr fun e _ => ?_
    simp [Bool.and_comm]
  elsewhere E hE := (h'.elsewhere E hE).trans (h.elsewhere E hE)
  files := h'.files.trans h.files
  held n hn := by
    rcases List.mem_append.mp hn with hn | hn
    · exact h.held n hn
    · obtain ⟨id, hid⟩ := h'.held n hn
      rw [h.lookup] at hid
      split at hid
      · cases hid
      · exact ⟨id, hid⟩

/-! ## What paths lead to -/

/-- A directory is found where it was. -/
theorem Cleared.find_directory (h : Cleared d d' D names) {p : Path} {q : Place}
    {E : DirectoryId} (hf : d.find p = .ok (q, .directory E)) :
    d'.find p = .ok (q, .directory E) := by
  refine h.find hf fun n hn hq => ?_
  obtain ⟨id, hid⟩ := h.held n hn
  have hnode := (find_eq_ok_iff.mp hf).2
  rw [node?_of_name hq.2, hq.1, hid] at hnode
  cases hnode

/-- What a name under a directory leads to lies in just this directory. -/
theorem place_of_find_join {directory : Path} {r : Place}
    (hdirectory : d.find directory = .ok (r, .directory D)) {n : FileName} (hn : IsName n)
    {q : Place} {v : Node} (hf : d.find (directory.join ⟨n⟩) = .ok (q, v)) :
    q.way.here = D ∧ q.name = some n := by
  have hp := bytes_ne_nil_of_locate (find_eq_ok_iff.mp hdirectory).1
  obtain ⟨hname, r', hr'⟩ := locate_join hp hn (find_eq_ok_iff.mp hf).1
  rw [hdirectory] at hr'
  cases hr'
  exact ⟨rfl, hname⟩

/-! ## Removing one file after the other -/

/-- One file that is there is removed. -/
theorem detached_remove (hfaults : ∀ f ∈ d.faults.remove, f = none) {p : Path} {q : Place}
    {id : FileId} (hf : d.find p = .ok (q, .file id)) :
    ∃ n, q.name = some n ∧ Detached d (d.remove p).2 q.way.here n ∧
      ∀ f ∈ (d.remove p).2.faults.remove, f = none := by
  have hok := remove_ok hf (Faults.next?_eq_none hfaults)
  cases hr : d.remove p with
  | mk result d' =>
    rw [hr] at hok
    obtain ⟨hplan, ⟨e, rfl, -⟩ | ⟨q', n, id', -, hf', hname, hdetached⟩⟩ := remove_cases hr
    · cases hok
    · rw [hf] at hf'
      cases hf'
      refine ⟨n, hname, hdetached, fun f hmem => ?_⟩
      rw [hplan] at hmem
      exact hfaults f (List.mem_of_mem_tail hmem)

/-- A removal puts no file where there was none. -/
theorem isFile_of_remove {p : Path} {r : Except DiskError Unit} (hr : d.remove p = (r, d'))
    {q : Path} (h : d'.isFile q = true) : d.isFile q = true := by
  obtain ⟨-, ⟨e, -, htree, -⟩ | ⟨_, n, _, -, -, -, hdetached⟩⟩ := remove_cases hr
  · rwa [htree.isFile] at h
  · obtain ⟨place, id, hfind⟩ := isFile_iff.mp h
    exact isFile_iff.mpr ⟨place, id, (hdetached.find_back hfind).1⟩

/-- A file that was removed is not there any more. -/
theorem not_isFile_remove (hfaults : ∀ f ∈ d.faults.remove, f = none) {p : Path}
    (h : d.isFile p = true) : (d.remove p).2.isFile p = false := by
  obtain ⟨q, id, hfind⟩ := isFile_iff.mp h
  obtain ⟨n, hname, hdetached, -⟩ := detached_remove hfaults hfind
  refine Bool.eq_false_iff.mpr fun hstill => ?_
  obtain ⟨q', id', hfind'⟩ := isFile_iff.mp hstill
  obtain ⟨hbefore, hother⟩ := hdetached.find_back hfind'
  rw [hfind, Except.ok.injEq, Prod.mk.injEq] at hbefore
  exact hother ⟨hbefore.1 ▸ rfl, hbefore.1 ▸ hname⟩

/-- Files of a directory that are there are all removed, and nothing else is. -/
theorem cleared_removeAll {directory : Path} {r : Place} (hd : d.WellFormed)
    (hfaults : ∀ f ∈ d.faults.remove, f = none)
    (hdirectory : d.find directory = .ok (r, .directory D)) (hdistinct : names.Nodup)
    (hthere : ∀ n ∈ names, IsName n ∧ ∃ q id, d.find (directory.join ⟨n⟩) = .ok (q, .file id)) :
    Cleared d (d.removeAll (names.map fun n => directory.join ⟨n⟩)) D names := by
  induction names generalizing d with
  | nil => exact .refl d D
  | cons n rest ih =>
    obtain ⟨⟨hn, q, id, hf⟩, hrest⟩ := List.forall_mem_cons.mp hthere
    obtain ⟨hnew, hdistinct'⟩ := List.nodup_cons.mp hdistinct
    obtain ⟨hqD, hqname⟩ := place_of_find_join hdirectory hn hf
    obtain ⟨m, hm, hdetached, hfaults'⟩ := detached_remove hfaults hf
    rw [hqname] at hm
    cases hm
    rw [hqD] at hdetached
    have hfirst := hdetached.cleared
    have hcleared := ih (hdetached.wellFormed hd) hfaults'
      (hfirst.find_directory hdirectory) hdistinct' fun m hm => by
        obtain ⟨hname, q', id', hf'⟩ := hrest m hm
        refine ⟨hname, q', id', hfirst.find hf' fun k hk hq' => ?_⟩
        rw [List.mem_singleton.mp hk, (place_of_find_join hdirectory hname hf').2] at hq'
        cases hq'.2
        exact hnew hm
    exact hfirst.trans hcleared

end SegmentLog.Disk
