import SegmentLog.Proofs.Store.Foreign

/-!
# The files of a store in its directory

The path of a segment is the directory with the name of its file behind it. Where the stem has a
separator, or where the directory is the empty path, the path leads somewhere, but not to a segment
file of the directory. In all other cases the file is listed, just under the name of the segment.

* `Found.lies` — where the file of a segment lies;
* `Found.mem_segmentFiles` — under which name it is listed;
* `Found.listed_iff` — when it is listed.
-/

namespace SegmentLog

namespace Store

variable {s : Store} {h : Handle} {found : List (SegmentName × Path)}

/-- The name and the path under which a segment is to be listed. -/
def entry (s : Store) (h : Handle) : SegmentName × Path := ((s.segment h).name, (s.segment h).path)

/-- The file of a segment lies in the directory of the store, under the name of the segment. -/
theorem Found.lies (hf : s.Found h) (hs : s.Filed) (hh : h < s.table.size)
    (hstem : '/' ∉ s.settings.stem.toList) (hdirectory : s.settings.directory.bytes ≠ []) :
    ∃ q r, s.disk.find (s.segment h).path = .ok (q, .file (s.segment h).file) ∧
      q.name = some ((s.segment h).name.fileName s.settings.stem) ∧
      Disk.IsName ((s.segment h).name.fileName s.settings.stem) ∧
      s.disk.find s.settings.directory = .ok (r, .directory q.way.here) := by
  obtain ⟨q, hq⟩ := hf
  have hlocate := (Disk.find_eq_ok_iff.mp hq).1
  rw [hs.placed h hh] at hlocate
  obtain ⟨hname, hisName⟩ := SegmentName.name_of_locate hstem hlocate
  obtain ⟨-, r, hr⟩ := Disk.locate_join hdirectory hisName hlocate
  exact ⟨q, r, hq, hname, hisName, hr⟩

/-- The file of a segment is listed under the name of the segment, and under no other. -/
theorem Found.mem_segmentFiles (hf : s.Found h) (hs : s.Filed) (hh : h < s.table.size)
    (hstem : '/' ∉ s.settings.stem.toList)
    (hfound : segmentFiles s.disk s.settings.directory s.settings.stem = .ok found)
    (n : SegmentName) : (n, (s.segment h).path) ∈ found ↔ n = (s.segment h).name := by
  obtain ⟨q, -, hq, -, hisName, -⟩ := hf.lies hs hh hstem
    (Disk.bytes_ne_nil_of_isDirectory (isDirectory_of_segmentFiles hfound))
  have hpath : (s.segment h).path =
      s.settings.directory.join ⟨(s.segment h).name.fileName s.settings.stem⟩ := hs.placed h hh
  have hof : SegmentName.ofPath s.settings.stem (s.segment h).path = .ok (s.segment h).name := by
    rw [hpath]
    exact SegmentName.ofPath_join _ hisName
  rw [mem_segmentFiles_iff hs.disk hfound]
  constructor
  · rintro ⟨-, -, -, -, -, -, hn⟩
    rw [hof, Except.ok.injEq] at hn
    exact hn.symm
  · rintro rfl
    exact ⟨_, q, _, hisName, hpath, hq, hof⟩

/-- The file of a segment is listed just if the stem has no separator and the directory is not the
empty path. -/
theorem Found.listed_iff (hf : s.Found h) (hs : s.Filed) (hh : h < s.table.size) :
    (∃ found, segmentFiles s.disk s.settings.directory s.settings.stem = .ok found ∧
      ∀ n, (n, (s.segment h).path) ∈ found ↔ n = (s.segment h).name) ↔
      '/' ∉ s.settings.stem.toList ∧ s.settings.directory.bytes ≠ [] := by
  constructor
  · rintro ⟨found, hfound, hlisted⟩
    obtain ⟨n, -, -, hn, hpath, -, hname⟩ :=
      (mem_segmentFiles_iff hs.disk hfound).mp ((hlisted _).mpr rfl)
    rw [hpath] at hname
    exact ⟨SegmentName.stem_of_ofPath hn hname,
      Disk.bytes_ne_nil_of_isDirectory (isDirectory_of_segmentFiles hfound)⟩
  · rintro ⟨hstem, hdirectory⟩
    obtain ⟨q, r, -, -, -, hr⟩ := hf.lies hs hh hstem hdirectory
    obtain ⟨found, hfound⟩ :=
      exists_segmentFiles (Disk.isDirectory_iff.mpr ⟨r, _, hr⟩) s.settings.stem
    exact ⟨found, hfound, hf.mem_segmentFiles hs hh hstem hfound⟩

end Store

end SegmentLog
