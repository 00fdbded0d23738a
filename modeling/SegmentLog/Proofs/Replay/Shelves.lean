import SegmentLog.Proofs.Replay.Course
import SegmentLog.Proofs.Segment.Shelf

/-!
# Replays of a shelf

The files of a shelf are replayed in the order of the shelf, and a target that never fails takes
in the records of one volume after the other.

* `names_shelf`, `reportOnAll_shelf` — the names of the volumes, and what is reported of them;
* `run_shelf`, `run_volumes` — what a replay does to a target that never fails.
-/

namespace SegmentLog

variable {σ : Type}

namespace Volume

/-- What a replay reports of a volume. -/
def report (d : Disk) (directory : Path) (stem : String) (v : Volume) : FileReport :=
  let scan := Scan.ofBytes (d.content v.file)
  { name := .ofId v.id, path := v.path directory stem, applied := scan.records.length, passed := 0,
    tail := scan.tail, stop := scan.stop }

end Volume

namespace Replay

variable {d : Disk} {directory : Path} {stem : String} {shelf : List Volume} {target : Target σ}

/-- The names of volumes are those of their segments. -/
theorem names_shelf (floor : Position)
    (hnames : ∀ v ∈ shelf, Disk.IsName ((SegmentName.ofId v.id).fileName stem)) :
    ({ stem, floor } : Replay).names (shelf.map (·.path directory stem)) =
      .ok (shelf.map (·.entry directory stem)) := by
  have hofPath : ∀ e ∈ shelf.map (·.entry directory stem),
      SegmentName.ofPath stem e.2 = .ok e.1 := by
    intro e he
    obtain ⟨v, hv, rfl⟩ := List.mem_map.mp he
    exact SegmentName.ofPath_join directory (hnames v hv)
  have hsupported : ∀ e ∈ shelf.map (·.entry directory stem), e.1.isSupported = true := by
    intro e he
    obtain ⟨v, -, rfl⟩ := List.mem_map.mp he
    rfl
  have h := names_of_supported (r := { stem, floor }) hofPath hsupported
  rwa [List.map_map] at h

/-- What is reported of volumes that can be read: as many records are applied as are stored, and
none is passed over. -/
theorem reportOnAll_shelf
    (hcontents : ∀ v ∈ shelf, d.contents (v.path directory stem) = .ok (d.content v.file)) :
    (d.reportOnAll (shelf.map (·.entry directory stem))).applied = (d.stored shelf).length ∧
      (d.reportOnAll (shelf.map (·.entry directory stem))).passed = 0 ∧
      (d.reportOnAll (shelf.map (·.entry directory stem))).files =
        shelf.map (·.report d directory stem) := by
  have hreports : (shelf.map (·.entry directory stem)).map d.reportOn =
      shelf.map (·.report d directory stem) := by
    rw [List.map_map]
    exact List.map_congr_left fun v hv => Disk.reportOn_of_contents (hcontents v hv)
  have happlied : ((·.applied) ∘ (·.report d directory stem) : Volume → Nat) =
      fun v => (d.recordsOf v).length :=
    funext fun _ => (List.length_map _).symm
  rw [Disk.reportOnAll, ReplayReport.addAll_eq, hreports]
  refine ⟨?_, ?_, rfl⟩
  · simp [happlied, Disk.stored, List.length_flatMap]
  · simp [Function.comp_def, Volume.report]

/-- What a replay of volumes does to a target that never fails, by the order in which they are
sorted. -/
theorem run_sorted {sorted : List Volume} (ht : target.NeverFails)
    (hnames : ∀ v ∈ shelf, Disk.IsName ((SegmentName.ofId v.id).fileName stem))
    (hcontents : ∀ v ∈ sorted, d.contents (v.path directory stem) = .ok (d.content v.file))
    (hsorted : (shelf.map (·.entry directory stem)).mergeSort inOrder =
      sorted.map (·.entry directory stem)) (state : σ) :
    ({ stem } : Replay).run target d (shelf.map (·.path directory stem)) state =
      (.ok (d.reportOnAll (sorted.map (·.entry directory stem))),
        (target.flush (target.feed (d.stored sorted) state)).2) := by
  have hopens : ({ stem } : Replay).Opens d (shelf.map (·.path directory stem))
      (sorted.map (·.entry directory stem)) := by
    refine ⟨⟨_, names_shelf .start hnames, hsorted⟩, fun e he _ => ?_⟩
    obtain ⟨v, hv, rfl⟩ := List.mem_map.mp he
    exact Disk.reads_of_contents (hcontents v hv)
  have hrecords : (sorted.map (·.entry directory stem)).flatMap d.recordsIn = d.stored sorted := by
    rw [List.flatMap_map]
    exact List.flatMap_congr fun v hv => Disk.recordsIn_of_contents (hcontents v hv)
  rw [run_neverFails ht hopens, recordsOf_start rfl, hrecords, reportOnAll_start rfl]

/-- **A replay of a shelf applies just what is stored on it**, one record after the other, and then
flushes. -/
theorem run_shelf (ht : target.NeverFails)
    (hascending : shelf.Pairwise fun u v => u.id < v.id)
    (hnames : ∀ v ∈ shelf, Disk.IsName ((SegmentName.ofId v.id).fileName stem))
    (hcontents : ∀ v ∈ shelf, d.contents (v.path directory stem) = .ok (d.content v.file))
    (state : σ) :
    ({ stem } : Replay).run target d (shelf.map (·.path directory stem)) state =
      (.ok (d.reportOnAll (shelf.map (·.entry directory stem))),
        (target.flush (target.feed (d.stored shelf) state)).2) :=
  run_sorted ht hnames hcontents
    (List.mergeSort_of_pairwise (List.pairwise_map.mpr (hascending.imp inOrder_of_lt))) state

/-- A replay of volumes, in whatever order they are given, applies what is stored in each of them,
one after the other, and then flushes. -/
theorem run_volumes (ht : target.NeverFails)
    (hnames : ∀ v ∈ shelf, Disk.IsName ((SegmentName.ofId v.id).fileName stem))
    (hcontents : ∀ v ∈ shelf, d.contents (v.path directory stem) = .ok (d.content v.file))
    (state : σ) :
    ∃ sorted report, sorted.Perm shelf ∧
      ({ stem } : Replay).run target d (shelf.map (·.path directory stem)) state =
        (.ok report, (target.flush (target.feed (d.stored sorted) state)).2) ∧
      report.files = sorted.map (·.report d directory stem) := by
  have hperm := List.mergeSort_perm shelf fun u v =>
    inOrder (u.entry directory stem) (v.entry directory stem)
  have hsorted := fun v hv => hcontents v (hperm.subset hv)
  exact ⟨_, _, hperm, run_sorted ht hnames hsorted
    (List.map_mergeSort (f := Volume.entry directory stem) fun _ _ _ _ => rfl).symm state,
    (reportOnAll_shelf hsorted).2.2⟩

/-- A replay of one file that can be read succeeds with a target that never fails. -/
theorem run_singleton {r : Replay} (hr : r.floor = .start) (ht : target.NeverFails)
    {name : SegmentName} {path : Path} {bytes : Bytes}
    (hname : r.names [path] = .ok [(name, path)]) (hd : d.contents path = .ok bytes) (state : σ) :
    ∃ report state', r.run target d [path] state = (.ok report, state') ∧
      report.maxId = some name.id := by
  have hopens : r.Opens d [path] [(name, path)] := by
    refine ⟨⟨_, hname, List.mergeSort_singleton _⟩, fun e he _ => ?_⟩
    rw [List.mem_singleton.mp he]
    exact Disk.reads_of_contents hd
  exact ⟨_, _, run_neverFails ht hopens state, by rw [reportOnAll_start hr]; rfl⟩

end Replay

end SegmentLog
