import SegmentLog.Proofs.Inspection.Printing
import SegmentLog.Proofs.Replay.Sorting

/-!
# What a replay sums up

A replay from the beginning hands a target that never fails the records of one file after the
other, in the order of the files, and reports of each file on its own. Both depend on nothing but
the content of the file, so that damage to one file leaves the records and the report of every
other one as they are. What is reported of all files together adds up, to the lengths of the
payloads.

* `addsUp_reportOnAll` — the totals of a report are those of its files;
* `lengths_add_up_recordsIn` — the ends of the files tell the lengths of all payloads;
* `run_contents` — a replay of files by their contents;
* `summary_adds_up` — all of this for any files, and what the inspection tool makes of it.
-/

namespace SegmentLog

variable {σ : Type}

/-- Whether the totals of a report are those of the files that were replayed, of the reports on
each of them, and of the records that were applied. -/
structure ReplayReport.AddsUp (report : ReplayReport) (files : List (SegmentName × Path))
    (records : List (Position × Bytes)) : Prop where
  fileCount : report.fileCount = files.length
  applied : report.applied = records.length
  cutShort : report.cutShort = report.files.countP fun f =>
    f.tail = .truncated ∨ f.tail = .checksumMismatch ∨ f.tail = .invalidSize
  last : report.last = records.getLast?.map (·.1)
  maxId : report.maxId = (files.map (·.1.id)).max?

namespace Tail

theorem isCutShort_eq (t : Tail) :
    t.isCutShort = decide (t = .truncated ∨ t = .checksumMismatch ∨ t = .invalidSize) := by
  cases t <;> rfl

end Tail

theorem max?_eq_of_perm {xs ys : List SegmentId} (h : xs.Perm ys) : xs.max? = ys.max? := by
  apply Option.ext
  intro top
  simp only [List.max?_eq_some_iff, h.mem_iff]

namespace Disk

variable {d : Disk} {files sorted : List (SegmentName × Path)}

/-- As many records are reported as the files hold. -/
theorem applied_reportOnAll (d : Disk) (files : List (SegmentName × Path)) :
    (d.reportOnAll files).applied = (files.flatMap d.recordsIn).length := by
  have hsum : ((files.map d.reportOn).map (·.applied)).sum =
      (files.flatMap d.recordsIn).length := by
    rw [List.length_flatMap, List.map_map]
    exact congrArg List.sum (List.map_congr_left fun e _ => (List.length_map _).symm)
  rw [← hsum, reportOnAll, ReplayReport.addAll_eq]
  exact Nat.zero_add _

/-- The counters of a report have come to the totals of its files. -/
theorem addsUp_reportOnAll (d : Disk) (hperm : sorted.Perm files) :
    (d.reportOnAll sorted).AddsUp files (sorted.flatMap d.recordsIn) where
  fileCount := by
    rw [reportOnAll, ReplayReport.addAll_eq, ← hperm.length_eq, ← List.length_map d.reportOn]
    exact Nat.zero_add _
  applied := applied_reportOnAll d sorted
  cutShort := by
    rw [files_reportOnAll, reportOnAll, ReplayReport.addAll_eq]
    refine (Nat.zero_add _).trans (List.countP_congr fun f _ => ?_)
    rw [Tail.isCutShort_eq]
  last := rfl
  maxId := max?_eq_of_perm (hperm.map _)

/-- The ends of files that can be read tell the lengths of all payloads. -/
theorem lengths_add_up_recordsIn (hd : ∀ e ∈ files, ∃ bytes, d.contents e.2 = .ok bytes) :
    ((files.flatMap d.recordsIn).map (·.2.length)).sum +
        Frame.overhead * (files.flatMap d.recordsIn).length =
      ((d.reportOnAll files).files.map (·.stop)).sum := by
  rw [files_reportOnAll]
  induction files with
  | nil => rfl
  | cons e more ih =>
    obtain ⟨⟨bytes, hbytes⟩, hmore⟩ := List.forall_mem_cons.mp hd
    have hfile : ((d.recordsIn e).map (·.2.length)).sum +
        Frame.overhead * (d.recordsIn e).length = (d.scan e.2).stop := by
      rw [recordsIn, positioned, List.map_map, List.length_map, scan_of_contents hbytes]
      exact Scan.lengths_add_up _
    have ih := ih hmore
    simp only [List.flatMap_cons, List.map_append, List.sum_append, List.length_append,
      Nat.mul_add, List.map_cons, List.sum_cons] at ih ⊢
    rw [← ih, show (d.reportOn e).stop = (d.scan e.2).stop from rfl, ← hfile]
    omega

end Disk

namespace Inspection

/-- The counter adds up the lengths of the payloads. -/
theorem feed_counter (records : List (Position × Bytes)) (n : Nat) :
    counter.feed records n = n + (records.map (·.2.length)).sum := by
  induction records generalizing n with
  | nil => rfl
  | cons r more ih =>
    unfold Target.feed at ih ⊢
    rw [List.foldl_cons, ih, List.map_cons, List.sum_cons]
    exact Nat.add_assoc ..

theorem neverFails_counter : counter.NeverFails := ⟨fun _ _ _ => rfl, fun _ => rfl⟩

end Inspection

namespace Replay

variable {r : Replay} {target : Target σ} {d : Disk} {files sorted : List (SegmentName × Path)}
  {paths : List Path}

/-- What a replay of some files from their beginnings does to a target that never fails. -/
theorem run_contents (hr : r.floor = .start) (ht : target.NeverFails)
    (hnames : r.names paths = .ok files) (hsorted : files.mergeSort inOrder = sorted)
    {content : SegmentName × Path → Bytes} (hd : ∀ e ∈ sorted, d.contents e.2 = .ok (content e))
    (s : σ) :
    r.requests target d paths s =
        (sorted.flatMap fun e => block e (content e)).map .apply ++ [.flush] ∧
      ∃ report, (r.run target d paths s).1 = .ok report ∧
        report.files = sorted.map (fun e => .ofContent e (content e)) ∧
        report.AddsUp files (r.received target d paths s) := by
  have hopens : r.Opens d paths sorted :=
    ⟨⟨files, hnames, hsorted⟩, fun e he _ => Disk.reads_of_contents (hd e he)⟩
  have hperm : sorted.Perm files := hsorted ▸ List.mergeSort_perm files inOrder
  refine ⟨?_, d.reportOnAll sorted, ?_, ?_, ?_⟩
  · rw [requests_neverFails ht hopens, recordsOf_start hr,
      List.flatMap_congr fun e he => Disk.recordsIn_of_contents (hd e he)]
  · rw [run_neverFails ht hopens, reportOnAll_start hr]
  · rw [Disk.files_reportOnAll]
    exact List.map_congr_left fun e he => Disk.reportOn_of_contents (hd e he)
  · rw [received_neverFails ht hopens, recordsOf_start hr]
    exact Disk.addsUp_reportOnAll d hperm

/-- **A replay is put together from its files, and its summary adds up.** Let some paths lead to
segment files of versions that can be replayed. There is one order of these files, by number, then
by version, then as they are given, such that, whatever they hold,

* a target that never fails is asked to take in the records of one file after the other, each of
  them as the content of that file alone says, and then to flush; the report lists the files in
  this order, each of them as its content alone says, and its totals add up;
* if one of the files holds other bytes, only its own records and its own report become others;
* the inspection tool prints the totals of the report, and in its third line the lengths of all
  payloads, which make up the files as far as they were read, together with twelve bytes for each
  record; then a line for each file that ended in a damaged or unfinished frame. -/
theorem summary_adds_up {stem : String} {files : List (SegmentName × Path)}
    (hnames : ∀ e ∈ files, SegmentName.ofPath stem e.2 = .ok e.1)
    (hsupported : ∀ e ∈ files, e.1.isSupported = true) :
    ∃ sorted, SortedFrom sorted files ∧
      ∀ (d : Disk) (content : Path → Bytes),
        (∀ e ∈ files, d.contents e.2 = .ok (content e.2)) →
        (∀ {σ : Type} {target : Target σ}, target.NeverFails → ∀ s,
          ({ stem } : Replay).requests target d (files.map (·.2)) s =
              (sorted.flatMap fun e => block e (content e.2)).map .apply ++ [.flush] ∧
            ∃ report, (({ stem } : Replay).run target d (files.map (·.2)) s).1 = .ok report ∧
              report.files = sorted.map (fun e => .ofContent e (content e.2)) ∧
              report.AddsUp files
                (({ stem } : Replay).received target d (files.map (·.2)) s)) ∧
        (∀ (path : Path) (bytes : Bytes) (d' : Disk),
          (∀ e ∈ files, d'.contents e.2 = if e.2 = path then .ok bytes else d.contents e.2) →
          ∀ {σ : Type} {target : Target σ}, target.NeverFails → ∀ s,
            ({ stem } : Replay).requests target d' (files.map (·.2)) s =
                (sorted.flatMap fun e =>
                  if e.2 = path then block e bytes else block e (content e.2)).map .apply ++
                    [.flush] ∧
              ∃ report, (({ stem } : Replay).run target d' (files.map (·.2)) s).1 = .ok report ∧
                report.files = sorted.map fun e =>
                  if e.2 = path then .ofContent e bytes else .ofContent e (content e.2)) ∧
        ∀ directory, segmentFiles d directory stem = .ok files →
          ∃ report total,
            ({ stem } : Replay).run Inspection.counter d (files.map (·.2)) 0 =
              (.ok report, total) ∧
            Inspection.verify d stem directory =
              ⟨["segments:          " ++ toString files.length,
                "records:           " ++ toString report.applied,
                "payload bytes:     " ++ toString total,
                "incomplete tails:  " ++ toString report.cutShort] ++
                ((report.files.filter fun f => f.tail = .truncated ∨ f.tail = .checksumMismatch ∨
                    f.tail = .invalidSize).map fun f =>
                  Inspection.damageText f.path f.stop f.tail) ++
                ["last position:     " ++ Inspection.positionText report.last], none⟩ ∧
            total + 12 * report.applied = (report.files.map (·.stop)).sum := by
  have hall : ({ stem } : Replay).names (files.map (·.2)) = .ok files :=
    names_of_supported hnames hsupported
  have hmem : ∀ e ∈ files.mergeSort inOrder, e ∈ files := fun e he => List.mem_mergeSort.mp he
  refine ⟨files.mergeSort inOrder, sortedFrom_mergeSort files, fun d content hd => ⟨?_, ?_, ?_⟩⟩
  · intro σ target ht s
    exact run_contents rfl ht hall rfl (fun e he => hd e (hmem e he)) s
  · intro path bytes d' hd' σ target ht s
    have hcontents : ∀ e ∈ files.mergeSort inOrder,
        d'.contents e.2 = .ok (if e.2 = path then bytes else content e.2) := by
      intro e he
      rw [hd' e (hmem e he), hd e (hmem e he)]
      split <;> rfl
    obtain ⟨hrequests, report, hrun, hreports, -⟩ := run_contents rfl ht hall rfl hcontents s
    simp only [apply_ite] at hrequests hreports
    exact ⟨hrequests, report, hrun, hreports⟩
  · intro directory hlisted
    have hopens : ({ stem } : Replay).Opens d (files.map (·.2)) (files.mergeSort inOrder) :=
      opens_of_names hall fun e he _ => Disk.reads_of_contents (hd e he)
    have hrun := run_neverFails Inspection.neverFails_counter hopens 0
    rw [reportOnAll_start rfl, recordsOf_start rfl, Inspection.feed_counter] at hrun
    have hcount := (Disk.addsUp_reportOnAll d (List.mergeSort_perm files inOrder)).fileCount
    refine ⟨_, _, hrun, ?_, ?_⟩
    · unfold Inspection.verify
      rw [hlisted]
      dsimp only
      rw [hrun]
      dsimp only
      rw [Inspection.outcomeLines_eq, hcount, List.filter_congr fun f _ => f.tail.isCutShort_eq]
    · rw [Disk.applied_reportOnAll,
        ← Disk.lengths_add_up_recordsIn fun e he => ⟨_, hd e (hmem e he)⟩]
      show 0 + _ + _ = _
      rw [Nat.zero_add]
      rfl

/-- Damage to the first of three files, two of which have the same name, takes away its records
alone. Before that, the four payloads had seven bytes. -/
theorem summary_adds_up_damaged :
    let first : SegmentName × Path := (⟨7, 1⟩, .ofString "./CommitLog-1-7.log")
    let second : SegmentName × Path := (⟨7, 1⟩, .ofString "./CommitLog-7.log")
    let third : SegmentName × Path := (⟨8, 3⟩, .ofString "./CommitLog-3-8.log")
    let d := ((({} : Disk).put third.2 (Frame.spell [[5, 6]])).put second.2
      (Frame.spell [[9]])).put first.2 (Frame.spell [[1, 2, 3], [4]])
    ({} : Replay).requests (Recorder.target none false "") (d.put first.2 [0, 0, 0])
        [first.2, second.2, third.2] {} =
      [.apply (⟨7, 0⟩, [9]), .apply (⟨8, 0⟩, [5, 6]), .flush] ∧
    Inspection.verify d defaultStem (.ofString ".") =
      ⟨["segments:          3", "records:           4", "payload bytes:     7",
        "incomplete tails:  0", "last position:     ReplayPosition(8, 0)"], none⟩ := by
  intro first second third d
  let content : Path → Bytes := fun p => (d.contents p).toOption.getD []
  have hnames : ∀ e ∈ [first, second, third], SegmentName.ofPath defaultStem e.2 = .ok e.1 := by
    decide +kernel
  have hsupported : ∀ e ∈ [first, second, third], e.1.isSupported = true := by decide
  have hd : ∀ e ∈ [first, second, third], d.contents e.2 = .ok (content e.2) := by decide +kernel
  have hdamaged : ∀ e ∈ [first, second, third], (d.put first.2 [0, 0, 0]).contents e.2 =
      if e.2 = first.2 then .ok [0, 0, 0] else d.contents e.2 := by decide +kernel
  have hordered : [first, second, third].mergeSort inOrder = [first, second, third] :=
    List.mergeSort_of_pairwise (by decide +kernel)
  obtain ⟨sorted, hsorted, hall⟩ := summary_adds_up hnames hsupported
  obtain rfl : sorted = [first, second, third] := hsorted.eq_mergeSort.trans hordered
  obtain ⟨hwhole, hpart, hverify⟩ := hall d content hd
  have hrecorder : (Recorder.target none false "").NeverFails := ⟨fun _ _ _ => rfl, fun _ => rfl⟩
  refine ⟨?_, ?_⟩
  · rw [show [first.2, second.2, third.2] = [first, second, third].map (·.2) from rfl,
      (hpart first.2 [0, 0, 0] _ hdamaged hrecorder {}).1]
    decide +kernel
  · have hlisted : segmentFiles d (.ofString ".") defaultStem = .ok [first, second, third] := by
      have hfiles : (["CommitLog-1-7.log", "CommitLog-7.log", "CommitLog-3-8.log"].map
          Utf8.encode).filterMap (fun n =>
            segmentFile? d defaultStem ((Path.ofString ".").join ⟨n⟩)) =
          [first, second, third] := by decide +kernel
      have hentries : d.entries (.ofString ".") = .ok (["CommitLog-1-7.log", "CommitLog-7.log",
          "CommitLog-3-8.log"].map Utf8.encode) := by decide +kernel
      rw [segmentFiles, hentries]
      dsimp only
      rw [hfiles, hordered]
    obtain ⟨report, total, hrun, hprinted, htotal⟩ := hverify _ hlisted
    obtain ⟨hrequests, report', hrun', hreports, hadds⟩ := hwhole Inspection.neverFails_counter 0
    rw [hrun] at hrun'
    cases hrun'
    have hreceived : ({} : Replay).received Inspection.counter d
        ([first, second, third].map (·.2)) 0 =
        [(⟨7, 0⟩, [1, 2, 3]), (⟨7, 15⟩, [4]), (⟨7, 0⟩, [9]), (⟨8, 0⟩, [5, 6])] := by
      rw [received, hrequests]
      decide +kernel
    rw [hreceived] at hadds
    have happlied : report.applied = 4 := hadds.applied
    have hstops : (report.files.map (·.stop)).sum = 55 := by
      rw [hreports]
      decide +kernel
    have hseven : total = 7 := by omega
    have hclean : ∀ f ∈ report.files,
        ¬ (f.tail = .truncated ∨ f.tail = .checksumMismatch ∨ f.tail = .invalidSize) := by
      rw [hreports]
      decide +kernel
    have hnone : report.cutShort = 0 := by
      rw [hadds.cutShort, List.countP_eq_zero]
      simpa using hclean
    rw [hprinted, happlied, hseven, hnone, hadds.last,
      List.filter_eq_nil_iff.mpr (by simpa using hclean)]
    decide +kernel

end Replay

end SegmentLog
