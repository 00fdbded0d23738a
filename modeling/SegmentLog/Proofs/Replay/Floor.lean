import SegmentLog.Proofs.Replay.Course

/-!
# Replays from a floor on

A replay with a floor goes through the same files in the same order as one without. It does not
open the files that lie before the floor as a whole, and of the records in the others it applies
those that do not lie before the floor.

* `run_congr` — what the files hold that are passed over makes no difference;
* `run_kept` — what a replay does to a target that never fails, by its floor;
* `floor_selects` — a replay with a floor against the one without.
-/

namespace SegmentLog

variable {σ : Type}

namespace Target

variable {target : Target σ}

/-- A target that keeps a list never fails if the other one never does. -/
theorem NeverFails.noting (ht : target.NeverFails) : target.noting.NeverFails where
  accepting p payload s := by
    have hok : target.apply p payload s.1 = (.ok (), (target.apply p payload s.1).2) :=
      Prod.ext (ht.accepting p payload s.1) rfl
    rw [Target.noting]
    dsimp only
    rw [hok]
  flushes s := ht.flushes s.1

/-- A target that keeps a list notes all records if it refuses none. -/
theorem NeverFails.feed_noting (ht : target.NeverFails) (records : List (Position × Bytes))
    (s : σ) : target.noting.feed records (s, []) = (target.feed records s, records) := by
  have hoffer := offer_accepting ht.accepting records s
  have hnoted := @offer_noting _ target records [] s
  rw [offer_accepting ht.noting.accepting, hoffer, (taken_of_offer_ok hoffer).1] at hnoted
  exact congrArg Prod.snd hnoted

end Target

/-- Whether two reports on a file agree but for the records that a floor made the first replay
pass over. -/
structure FileReport.Agrees (floored whole : FileReport) : Prop where
  name : floored.name = whole.name
  path : floored.path = whole.path
  tail : floored.tail = whole.tail
  stop : floored.stop = whole.stop
  records : floored.applied + floored.passed = whole.applied

namespace Replay

variable {r : Replay} {target : Target σ} {d d' : Disk} {files : List (SegmentName × Path)}
  {named : List (SegmentName × Path)} {paths : List Path}

/-- Whether a path names a segment that lies before the floor as a whole. -/
def passesOver (r : Replay) (path : Path) : Bool :=
  match SegmentName.ofPath r.stem path with
  | .ok name => name.id < r.floor.segment
  | .error _ => false

/-- The records that a replay of many files applies: those that its target has noted in the end. -/
def appliedByRun (r : Replay) (target : Target σ) (d : Disk) (paths : List Path) (s : σ) :
    List (Position × Bytes) :=
  (r.run target.noting d paths (s, [])).2.2

/-! ## Names -/

/-- The names do not depend on the floor. -/
theorem names_floor (r : Replay) (f : Position) (paths : List Path) :
    ({ r with floor := f } : Replay).names paths = r.names paths := by
  induction paths with
  | nil => rfl
  | cons path more ih => rw [names, names, ih]

theorem passesOver_eq {e : SegmentName × Path} (h : SegmentName.ofPath r.stem e.2 = .ok e.1) :
    r.passesOver e.2 = decide (e.1.id < r.floor.segment) := by
  rw [passesOver, h]

/-! ## What is not opened -/

theorem files_congr (target : Target σ)
    (h : ∀ e ∈ files, ¬ e.1.id < r.floor.segment → d'.opened e.2 = d.opened e.2)
    (report : ReplayReport) (p : Progress σ) :
    r.files target d' files report p = r.files target d files report p := by
  induction files generalizing report p with
  | nil => rfl
  | cons e more ih =>
    obtain ⟨he, hmore⟩ := List.forall_mem_cons.mp h
    rw [Replay.files, Replay.files]
    dsimp only
    split
    · exact ih hmore _ _
    · rename_i hopened
      rw [file, file, he hopened]
      split
      · rfl
      · exact ih hmore _ _

/-- What the files hold that lie before the floor as a whole, or whether they are there, makes no
difference to a replay. -/
theorem run_congr (target : Target σ)
    (h : ∀ path ∈ paths, r.passesOver path = false → d'.opened path = d.opened path)
    (state : σ) : r.run target d' paths state = r.run target d paths state := by
  cases hnames : r.names paths with
  | error e =>
    unfold run
    rw [hnames]
  | ok named =>
    obtain ⟨hpaths, hall⟩ := names_eq_ok hnames
    have hsame : ∀ e ∈ named.mergeSort inOrder, ¬ e.1.id < r.floor.segment →
        d'.opened e.2 = d.opened e.2 := by
      intro e he hopened
      have hmem := List.mem_mergeSort.mp he
      refine h e.2 (hpaths ▸ List.mem_map_of_mem hmem) ?_
      rw [passesOver_eq (hall e hmem)]
      exact decide_eq_false hopened
    rw [run_of_names hnames, run_of_names hnames, files_congr target hsame]

/-! ## What is applied -/

/-- The report on a file agrees with the one of a replay from the beginning. -/
theorem agrees_reportOn {whole : Replay} (hw : whole.floor = .start) (r : Replay) (d : Disk)
    (e : SegmentName × Path) : (r.reportOn d e).Agrees (whole.reportOn d e) where
  name := rfl
  path := rfl
  tail := rfl
  stop := rfl
  records := by
    have hle := length_kept_le r e.1.id (d.scan e.2).records
    simp only [reportOn, kept_start hw, positioned, List.length_map]
    omega

/-- Files that a replay opened on its way to a report can be read to where their records stop. -/
theorem readable_of_files {report report' : ReplayReport} {p p' : Progress σ}
    (h : r.files target d files report p = (.ok report', p')) :
    ∀ e ∈ files, ¬ e.1.id < r.floor.segment → d.Reads e.2 := by
  induction files generalizing report p with
  | nil => simp
  | cons e more ih =>
    rw [Replay.files] at h
    dsimp only at h
    refine List.forall_mem_cons.mpr ?_
    split at h
    · rename_i hpassed
      exact ⟨fun hopened => absurd hpassed hopened, ih h⟩
    · split at h
      · cases h
      · rename_i hfile
        refine ⟨fun _ => ?_, ih h⟩
        rcases file_offer (r := r) target d e p with
          ⟨p₁, hread, -⟩ | ⟨q, reason, p₁, -, hfails⟩ | ⟨cause, p₁, -, -, hfails⟩
        · exact hread
        · rw [hfile] at hfails
          cases hfails
        · rw [hfile] at hfails
          cases hfails

/-- What a replay does to a target that never fails, by the order in which the files are sorted. -/
theorem run_kept (ht : target.NeverFails) (hnames : r.names paths = .ok named)
    (hd : ∀ e ∈ named, ¬ e.1.id < r.floor.segment → d.Reads e.2) (state : σ) :
    let sorted := named.mergeSort inOrder
    let records := (sorted.flatMap d.recordsIn).filter fun q => ¬ q.1 < r.floor
    r.appliedByRun target d paths state = records ∧
    ∃ report, r.run target d paths state =
        (.ok report, (target.flush (target.feed records state)).2) ∧
      report.files = (sorted.filter fun e => ¬ e.1.id < r.floor.segment).map (r.reportOn d) ∧
      report.filesPassed = sorted.countP (fun e => e.1.id < r.floor.segment) ∧
      report.maxId = highest none (sorted.map (·.1.id)) := by
  intro sorted records
  have hopens : r.Opens d paths sorted := opens_of_names hnames hd
  refine ⟨?_, r.reportOnAll d sorted, run_neverFails ht hopens state, ?_, rfl,
    (highest_none _).symm⟩
  · -- a target that keeps a list never fails either
    unfold appliedByRun
    rw [run_neverFails ht.noting hopens, ht.feed_noting]
    rfl
  · rw [reportOnAll, ReplayReport.addAll_eq]
    rfl

/-- A replay that comes to an end has opened the files that it does not pass over. -/
theorem exists_named {report : ReplayReport} {state final : σ}
    (h : r.run target d paths state = (.ok report, final)) :
    ∃ named, r.names paths = .ok named ∧
      ∀ e ∈ named, ¬ e.1.id < r.floor.segment → d.Reads e.2 := by
  cases hnames : r.names paths with
  | error e =>
    unfold run at h
    rw [hnames] at h
    cases h
  | ok named =>
    rw [run_of_names hnames] at h
    split at h
    · cases h
    · rename_i hfiles
      exact ⟨named, rfl, fun e he => readable_of_files hfiles e (List.mem_mergeSort.mpr he)⟩

/-- **A floor selects just the records that do not lie before it.** Let a replay from the beginning
come to its end with a target that never fails. Then so does the replay of the same files from any
floor on; it applies, in the same order, those records that the first one applied and that do not
lie before the floor. It passes over as many files as lie before the floor as a whole; on every
other file it reports the same end, and as many records, applied and passed over, as were applied
without the floor; and the highest number is the same. What the files hold that are passed over,
or whether they are there, makes no difference. -/
theorem floor_selects {report : ReplayReport} {state final : σ} (hr : r.floor = .start)
    (ht : target.NeverFails) (hrun : r.run target d paths state = (.ok report, final))
    (f : Position)
    (hd : ∀ path ∈ paths, ({ r with floor := f } : Replay).passesOver path = false →
      d'.opened path = d.opened path) :
    ({ r with floor := f } : Replay).appliedByRun target d' paths state =
        (r.appliedByRun target d paths state).filter (fun q => f ≤ q.1) ∧
      ∃ report', ({ r with floor := f } : Replay).run target d' paths state =
          (.ok report', (target.flush (target.feed
            (({ r with floor := f } : Replay).appliedByRun target d' paths state) state)).2) ∧
        report'.filesPassed = paths.countP ({ r with floor := f } : Replay).passesOver ∧
        List.Forall₂ FileReport.Agrees report'.files
          (report.files.filter fun x => ¬ x.name.id < f.segment) ∧
        report'.maxId = report.maxId := by
  obtain ⟨named, hnames, hreadable⟩ := exists_named hrun
  have hreadable : ∀ e ∈ named, d.Reads e.2 :=
    fun e he => hreadable e he (not_lt_floor_segment hr _)
  obtain ⟨hwhole, report₁, hrun₁, hreports, -, hmax⟩ :=
    run_kept ht hnames (fun e he _ => hreadable e he) state
  obtain ⟨hfloored, report', hrun', hreports', hcount', hmax'⟩ :=
    run_kept (r := { r with floor := f }) ht ((names_floor r f paths).trans hnames)
      (fun e he _ => hreadable e he) state
  rw [hrun] at hrun₁
  cases hrun₁
  have happlied : ({ r with floor := f } : Replay).appliedByRun target d' paths state =
      ({ r with floor := f } : Replay).appliedByRun target d paths state :=
    congrArg (·.2.2) (run_congr target.noting hd (state, []))
  rw [happlied, run_congr target hd]
  refine ⟨?_, report', ?_, ?_, ?_, hmax'.trans hmax.symm⟩
  · rw [hwhole, hfloored, List.filter_filter]
    refine List.filter_congr fun q _ => ?_
    simp [not_lt_floor hr, Position.not_lt]
  · rw [hrun', hfloored]
  · obtain ⟨hpaths, hall⟩ := names_eq_ok ((names_floor r f paths).trans hnames)
    rw [hcount', (List.mergeSort_perm named _).countP_eq, ← hpaths, List.countP_map]
    exact List.countP_congr fun e he => by rw [Function.comp_apply, passesOver_eq (hall e he)]
  · rw [hreports', hreports, List.filter_map, List.forall₂_map_left_iff,
      List.forall₂_map_right_iff, List.filter_filter]
    have hsame : (named.mergeSort inOrder).filter
        (fun e => decide (¬ (r.reportOn d e).name.id < f.segment) &&
          decide (¬ e.1.id < r.floor.segment)) =
        (named.mergeSort inOrder).filter (fun e => ¬ e.1.id < f.segment) := by
      refine List.filter_congr fun e _ => ?_
      rw [decide_eq_true (not_lt_floor_segment hr e.1.id), Bool.and_true]
      rfl
    exact hsame ▸ List.forall₂_same.mpr fun e _ => agrees_reportOn hr _ d e

/-- The first of two files lies before the floor as a whole, and is not there any more; of the other
one the second record is applied. -/
theorem floor_selects_second :
    ∃ report, ({ floor := ⟨8, 15⟩ } : Replay).run
        (Target.total fun q x (s : List (Position × Bytes)) => s ++ [(q, x)])
        (({} : Disk).put (.ofString "CommitLog-3-8.log") (Frame.spell [[1, 2, 3], [4]]))
        [.ofString "CommitLog-3-7.log", .ofString "CommitLog-3-8.log"] [] =
          (.ok report, [(⟨8, 15⟩, [4])]) ∧
      report.filesPassed = 1 ∧ report.maxId = some 8 := by
  let target : Target (List (Position × Bytes)) := Target.total fun q x s => s ++ [(q, x)]
  let d' := ({} : Disk).put (.ofString "CommitLog-3-8.log") (Frame.spell [[1, 2, 3], [4]])
  let d := (({} : Disk).put (.ofString "CommitLog-3-7.log") (Frame.spell [[9]])).put
    (.ofString "CommitLog-3-8.log") (Frame.spell [[1, 2, 3], [4]])
  let named : List (SegmentName × Path) :=
    [(⟨7, 3⟩, .ofString "CommitLog-3-7.log"), (⟨8, 3⟩, .ofString "CommitLog-3-8.log")]
  have ht : target.NeverFails := ⟨Target.accepting_total _, fun _ => rfl⟩
  have hnames : ({} : Replay).names
      [.ofString "CommitLog-3-7.log", .ofString "CommitLog-3-8.log"] = .ok named := by
    decide +kernel
  have hfirst : d.contents (.ofString "CommitLog-3-7.log") = .ok (Frame.spell [[9]]) := by rfl
  have hsecond : d.contents (.ofString "CommitLog-3-8.log") =
    .ok (Frame.spell [[1, 2, 3], [4]]) := by rfl
  have hkept : d'.opened (.ofString "CommitLog-3-8.log") =
    d.opened (.ofString "CommitLog-3-8.log") := by rfl
  have hreadable : ∀ e ∈ named, ¬ e.1.id < ({} : Replay).floor.segment → d.Reads e.2 := by
    simp [named, Disk.reads_of_contents hfirst, Disk.reads_of_contents hsecond]
  have hscan₁ : Scan.ofBytes (Frame.spell [[9]]) = ⟨[(0, [9])], .clean, 13⟩ :=
    Scan.ofBytes_spell_clean (by simp [Frame.Framable, Frame.maxSize])
  have hscan₂ : Scan.ofBytes (Frame.spell [[1, 2, 3], [4]]) =
      ⟨[(0, [1, 2, 3]), (15, [4])], .clean, 28⟩ :=
    Scan.ofBytes_spell_clean (by simp [Frame.Framable, Frame.maxSize])
  have hsorted : named.mergeSort inOrder = named :=
    List.mergeSort_of_pairwise (by decide)
  have hrecords : named.flatMap d.recordsIn =
      [(⟨7, 0⟩, [9]), (⟨8, 0⟩, [1, 2, 3]), (⟨8, 15⟩, [4])] := by
    simp only [named, List.flatMap_cons, List.flatMap_nil, Disk.recordsIn,
      Disk.scan_of_contents hfirst, Disk.scan_of_contents hsecond, hscan₁, hscan₂]
    rfl
  -- the replay from the beginning comes to its end
  obtain ⟨happlied, report, hrun, -, -, hmax⟩ := run_kept ht hnames hreadable []
  rw [hsorted, hrecords] at happlied
  rw [hsorted] at hmax
  have hsame : ∀ path ∈ [Path.ofString "CommitLog-3-7.log", .ofString "CommitLog-3-8.log"],
      ({ floor := ⟨8, 15⟩ } : Replay).passesOver path = false →
        d'.opened path = d.opened path := by
    simp only [List.forall_mem_cons]
    exact ⟨fun h => absurd h (by decide +kernel), fun _ => hkept, by simp⟩
  obtain ⟨hselected, report', hrun', hpassed, -, hmax'⟩ :=
    floor_selects rfl ht hrun ⟨8, 15⟩ hsame
  rw [hselected, happlied] at hrun'
  exact ⟨report', hrun', hpassed, hmax'.trans hmax⟩

end Replay

end SegmentLog
