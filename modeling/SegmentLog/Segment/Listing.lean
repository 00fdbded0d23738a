import SegmentLog.LogError

/-!
# Segment files of a directory

The segment files in a directory are the files there whose names are segment names of a stem;
everything else is passed over. They are listed by number, then by version, and files that agree
in both stay in the order of the directory.

* `mem_segmentFiles` — which files are listed.
-/

namespace SegmentLog

/-- A segment file, if a path leads to one. -/
def segmentFile? (d : Disk) (stem : String) (p : Path) : Option (SegmentName × Path) :=
  if d.isFile p then
    match SegmentName.ofPath stem p with
    | .ok name => some (name, p)
    | .error _ => none
  else none

/-- The order of segment files. -/
def inOrder (a b : SegmentName × Path) : Bool := a.1.precedes b.1

/-- The segment files of a stem in a directory. -/
def segmentFiles (d : Disk) (directory : Path) (stem : String) :
    Except DiskError (List (SegmentName × Path)) :=
  match d.entries directory with
  | .error e => .error e
  | .ok names =>
    .ok ((names.filterMap fun n => segmentFile? d stem (directory.join ⟨n⟩)).mergeSort inOrder)

theorem segmentFile?_eq_some_iff {d : Disk} {stem : String} {p q : Path} {name : SegmentName} :
    segmentFile? d stem p = some (name, q) ↔
      d.isFile p = true ∧ SegmentName.ofPath stem p = .ok name ∧ q = p := by
  rw [segmentFile?]
  split
  · rename_i hf
    cases SegmentName.ofPath stem p with
    | error e => simp
    | ok n =>
      simp only [Option.some.injEq, Prod.mk.injEq, hf, Except.ok.injEq, true_and]
      constructor <;> rintro ⟨rfl, rfl⟩ <;> exact ⟨rfl, rfl⟩
  · rename_i hf
    simp [hf]

/-- A file is listed exactly if it lies in the directory and has a segment name. -/
theorem mem_segmentFiles {d : Disk} {directory : Path} {stem : String} {names : List FileName}
    {found : List (SegmentName × Path)} (hn : d.entries directory = .ok names)
    (hf : segmentFiles d directory stem = .ok found) {name : SegmentName} {p : Path} :
    (name, p) ∈ found ↔
      (∃ n ∈ names, p = directory.join ⟨n⟩) ∧ d.isFile p = true ∧
        SegmentName.ofPath stem p = .ok name := by
  simp only [segmentFiles, hn, Except.ok.injEq] at hf
  rw [← hf, List.mem_mergeSort, List.mem_filterMap]
  constructor
  · rintro ⟨n, hmem, h⟩
    obtain ⟨h1, h2, rfl⟩ := segmentFile?_eq_some_iff.mp h
    exact ⟨⟨n, hmem, rfl⟩, h1, h2⟩
  · rintro ⟨⟨n, hmem, rfl⟩, h1, h2⟩
    exact ⟨n, hmem, segmentFile?_eq_some_iff.mpr ⟨h1, h2, rfl⟩⟩

end SegmentLog
