import SegmentLog.Proofs.Segment.Paths
import SegmentLog.Store.Append
import SegmentLog.Store.Discard
import SegmentLog.Store.Durability

/-!
# The table of segments

Every segment that a store has made is in its table, with the file that was made for it. A segment
is changed in its entry, and a new one is added at the end; no entry is ever taken away. What a
segment keeps through all changes is its name, its path and its file.

* `segment_modify_self`, `segment_push` — an entry is changed, or added;
* `perm_loose`, `perm_activate`, `perm_erase` — segments change their places;
* `Filed.of_same`, `Filed.push` — the segments keep the files that were made for them.
-/

namespace SegmentLog

namespace Segment

/-- Whether two states of a segment have the same file. -/
structure SameFile (g g' : Segment) : Prop where
  name : g'.name = g.name
  path : g'.path = g.path
  file : g'.file = g.file
  capacity : g'.capacity = g.capacity

theorem SameFile.refl (g : Segment) : SameFile g g := ⟨rfl, rfl, rfl, rfl⟩

theorem SameFile.id {g g' : Segment} (h : SameFile g g') : g'.id = g.id := by
  rw [Segment.id, Segment.id, h.name]

end Segment

namespace Store

variable {s s' : Store}

/-! ## Entries -/

theorem segment_modify_self {h : Handle} (f : Segment → Segment)
    (hk : h < s.table.size) : (s.modify h f).segment h = f (s.segment h) := by
  rw [segment_modify s h h f hk, if_pos rfl]

theorem segment_modify_ne {h k : Handle} (f : Segment → Segment) (hne : k ≠ h) :
    (s.modify h f).segment k = s.segment k := by
  simp only [segment, modify, Array.getD_eq_getD_getElem?, Array.getElem?_modify,
    if_neg (Ne.symm hne)]

theorem size_modify (s : Store) (h : Handle) (f : Segment → Segment) :
    (s.modify h f).table.size = s.table.size := by
  rw [modify, Array.size_modify]

/-- Where one segment is changed, all are related to what they were, if that one is. -/
theorem modify_related {P : Segment → Segment → Prop} (hrefl : ∀ g, P g g) {h : Handle}
    {f : Segment → Segment} (hf : P (s.segment h) (f (s.segment h))) :
    ∀ k < s.table.size, P (s.segment k) ((s.modify h f).segment k) := by
  intro k hk
  by_cases hkh : k = h
  · subst hkh
    rw [segment_modify_self f hk]
    exact hf
  · rw [segment_modify_ne f hkh]
    exact hrefl _

theorem segment_push {g : Segment} (h : s'.table = s.table.push g) (k : Handle) :
    s'.segment k = if k = s.table.size then g else s.segment k := by
  rw [segment, segment, h, Array.getD_eq_getD_getElem?, Array.getD_eq_getD_getElem?,
    Array.getElem?_push]
  split <;> rfl

theorem sameFile_modify {h : Handle} {f : Segment → Segment}
    (hf : (s.segment h).SameFile (f (s.segment h))) :
    ∀ k < s.table.size, (s.segment k).SameFile ((s.modify h f).segment k) :=
  modify_related Segment.SameFile.refl hf

/-! ## Places -/

/-- A segment that has no place yet stands beside all the others. -/
theorem perm_loose (active spare loose : List Handle) (k : Handle) :
    (active ++ (spare ++ k :: loose)).Perm (k :: (active ++ (spare ++ loose))) := by
  rw [← List.append_assoc, ← List.append_assoc]
  exact List.perm_middle

/-- A segment that has no place yet becomes the last active one. -/
theorem perm_activate (active spare loose : List Handle) (k : Handle) :
    (active ++ [k] ++ (spare ++ loose)).Perm (active ++ (spare ++ k :: loose)) := by
  rw [List.append_assoc, List.singleton_append]
  exact List.perm_middle.symm.append_left _

/-- An active segment loses its place. -/
theorem perm_erase {active : List Handle} {h : Handle} (hh : h ∈ active)
    (spare loose : List Handle) :
    (active.erase h ++ (spare ++ h :: loose)).Perm (active ++ (spare ++ loose)) :=
  (perm_loose ..).trans ((List.perm_cons_erase hh).symm.append_right _)

/-! ## Segments and the files that were made for them -/

/-- Whether the segments of a store are in its table with the files that were made for them. -/
structure Filed (s : Store) : Prop where
  disk : s.disk.WellFormed
  named : ∀ h < s.table.size, (s.segment h).name = .ofId (s.segment h).id
  placed : ∀ h < s.table.size, (s.segment h).path =
    (s.segment h).name.pathIn s.settings.directory s.settings.stem
  files : ∀ h < s.table.size, (s.segment h).file < s.disk.files.size
  apart : ∀ g h, g < h → h < s.table.size → (s.segment g).file < (s.segment h).file

theorem Filed.file_ne (hs : s.Filed) {g h : Handle} (hg : g < s.table.size)
    (hh : h < s.table.size) (hne : g ≠ h) : (s.segment g).file ≠ (s.segment h).file := by
  rcases Nat.lt_or_gt_of_ne hne with hlt | hgt
  · exact Nat.ne_of_lt (hs.apart g h hlt hh)
  · exact (Nat.ne_of_lt (hs.apart h g hgt hg)).symm

theorem Filed.of_same (hs : s.Filed) (hsettings : s'.settings = s.settings)
    (hsize : s'.table.size = s.table.size)
    (hsame : ∀ k < s.table.size, (s.segment k).SameFile (s'.segment k))
    (hdisk : s'.disk.WellFormed) (hfiles : s.disk.files.size ≤ s'.disk.files.size) :
    s'.Filed where
  disk := hdisk
  named h hh := by
    rw [hsize] at hh
    rw [(hsame h hh).id, (hsame h hh).name]
    exact hs.named h hh
  placed h hh := by
    rw [hsize] at hh
    rw [(hsame h hh).path, (hsame h hh).name, hsettings]
    exact hs.placed h hh
  files h hh := by
    rw [hsize] at hh
    rw [(hsame h hh).file]
    exact Nat.lt_of_lt_of_le (hs.files h hh) hfiles
  apart g h hgh hh := by
    rw [hsize] at hh
    rw [(hsame h hh).file, (hsame g (Nat.lt_trans hgh hh)).file]
    exact hs.apart g h hgh hh

/-- Whatever else happens on the disk, segments keep the files that were made for them. -/
theorem Filed.of_disk (hs : s.Filed) {disk : Disk} (hd : disk.WellFormed)
    (hfiles : s.disk.files.size ≤ disk.files.size) : Filed { s with disk } :=
  hs.of_same rfl rfl (fun _ _ => .refl _) hd hfiles

theorem Filed.modify (hs : s.Filed) {h : Handle} {f : Segment → Segment}
    (hf : (s.segment h).SameFile (f (s.segment h))) : (s.modify h f).Filed :=
  hs.of_same rfl (size_modify s h f) (sameFile_modify hf) hs.disk (Nat.le_refl _)

/-- A segment that is added to the table has the newest file. -/
theorem Filed.push (hs : s.Filed) {g : Segment} (hsettings : s'.settings = s.settings)
    (htable : s'.table = s.table.push g) (hname : g.name = .ofId g.id)
    (hpath : g.path = g.name.pathIn s.settings.directory s.settings.stem)
    (hfile : g.file = s.disk.files.size) (hdisk : s'.disk.WellFormed)
    (hfiles : s'.disk.files.size = s.disk.files.size + 1) : s'.Filed := by
  have hold : ∀ k < s.table.size, s'.segment k = s.segment k := by
    intro k hk
    rw [segment_push htable, if_neg (Nat.ne_of_lt hk)]
  have hnew : s'.segment s.table.size = g := by rw [segment_push htable, if_pos rfl]
  have hcase : ∀ k < s'.table.size, k < s.table.size ∨ k = s.table.size := by
    intro k hk
    rw [htable, Array.size_push] at hk
    omega
  constructor
  case disk => exact hdisk
  case named =>
    intro k hk
    rcases hcase k hk with hlt | rfl
    · rw [hold k hlt]
      exact hs.named k hlt
    · rw [hnew, ← hname]
  case placed =>
    intro k hk
    rcases hcase k hk with hlt | rfl
    · rw [hold k hlt, hsettings]
      exact hs.placed k hlt
    · rw [hnew, hpath, hsettings]
  case files =>
    intro k hk
    rcases hcase k hk with hlt | rfl
    · rw [hold k hlt, hfiles]
      exact Nat.lt_succ_of_lt (hs.files k hlt)
    · rw [hnew, hfile, hfiles]
      exact Nat.lt_succ_self _
  case apart =>
    intro i k hik hk
    rcases hcase k hk with hlt | rfl
    · rw [hold k hlt, hold i (Nat.lt_trans hik hlt)]
      exact hs.apart i k hik hlt
    · rw [hnew, hold i hik, hfile]
      exact hs.files i hik

end Store

end SegmentLog
