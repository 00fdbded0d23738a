import SegmentLog.Proofs.Replay.Accepting
import SegmentLog.Segment.Listing

/-!
# Targets that may refuse

A target is offered one record after the other, and may refuse any of them. A replay offers it the
records that its files hold, once all their names were found to be those of versions that can be
replayed. What a file holds is told by its content alone, as far as it can be read.

* `offer_append` — records are offered one after the other;
* `offer_accepting` — a target that refuses nothing takes in all of them;
* `ReplayReport.addAll_eq` — the counters of a report, once some files were added to it;
* `recordsIn_of_contents`, `reportOn_of_contents` — a file contributes what its content says;
* `names_eq_ok`, `names_cases` — the names are looked at first, and the versions that they tell;
* `names_of_accepts`, `accepts_of_names` — which names are accepted;
* `run_of_names` — what a replay does once all of them are.
-/

namespace SegmentLog

variable {σ : Type}

namespace Target

/-- Offers records to a target, one after the other, until it refuses one. -/
def offer (target : Target σ) : List (Position × Bytes) → σ →
    Except (Position × String) Unit × σ
  | [], s => (.ok (), s)
  | r :: more, s =>
    match target.apply r.1 r.2 s with
    | (.error reason, s) => (.error (r.1, reason), s)
    | (.ok (), s) => target.offer more s

/-- The records that follow others are offered when those were taken in. -/
theorem offer_append (target : Target σ) (xs ys : List (Position × Bytes)) (s : σ) :
    target.offer (xs ++ ys) s =
      match target.offer xs s with
      | (.error e, s) => (.error e, s)
      | (.ok (), s) => target.offer ys s := by
  induction xs generalizing s with
  | nil => rfl
  | cons r more ih =>
    rw [List.cons_append, offer, offer]
    split
    · rfl
    · exact ih _

/-- A target that refuses no record takes in all that it is offered. -/
theorem offer_accepting {target : Target σ} (ht : target.Accepting)
    (records : List (Position × Bytes)) (s : σ) :
    target.offer records s = (.ok (), target.feed records s) := by
  induction records generalizing s with
  | nil => rfl
  | cons r more ih =>
    have hok : target.apply r.1 r.2 s = (.ok (), (target.apply r.1 r.2 s).2) :=
      Prod.ext (ht r.1 r.2 s) rfl
    rw [offer, hok]
    exact ih _

end Target

/-! ## What files hold -/

instance : Std.LawfulOrderMax SegmentId where
  max_eq_or a b := by
    rw [UInt64.max_def]
    split
    · exact .inr rfl
    · exact .inl rfl
  max_le_iff a b c := by
    rw [UInt64.max_def]
    split
    · rename_i hab
      exact ⟨fun hb => ⟨UInt64.le_trans hab hb, hb⟩, fun h => h.2⟩
    · rename_i hba
      have hle := UInt64.le_of_lt (UInt64.not_le.mp hba)
      exact ⟨fun ha => ⟨ha, UInt64.le_trans hle ha⟩, fun h => h.1⟩

/-- The records of a segment file that holds some bytes, with their positions. -/
def block (e : SegmentName × Path) (bytes : Bytes) : List (Position × Bytes) :=
  positioned e.1.id (Scan.ofBytes bytes).records

/-- What a replay reports of a segment file that holds some bytes. -/
def FileReport.ofContent (e : SegmentName × Path) (bytes : Bytes) : FileReport where
  name := e.1
  path := e.2
  applied := (Scan.ofBytes bytes).records.length
  passed := 0
  tail := (Scan.ofBytes bytes).tail
  stop := (Scan.ofBytes bytes).stop

namespace ReplayReport

/-- Adds files that were replayed to a report, one after the other. -/
def addAll (report : ReplayReport) (fs : List FileReport) : ReplayReport := fs.foldl add report

/-- What a report says once some files were added to it one after the other: every counter has gone
up by what the files come to. -/
theorem addAll_eq (report : ReplayReport) (fs : List FileReport) :
    report.addAll fs =
      { report with
        fileCount := report.fileCount + fs.length
        applied := report.applied + (fs.map (·.applied)).sum
        passed := report.passed + (fs.map (·.passed)).sum
        cutShort := report.cutShort + fs.countP (·.tail.isCutShort)
        files := report.files ++ fs } := by
  induction fs generalizing report with
  | nil => simp [addAll]
  | cons f more ih =>
    have hcount : (report.add f).cutShort + more.countP (·.tail.isCutShort) =
        report.cutShort + (f :: more).countP (·.tail.isCutShort) := by
      simp only [List.countP_cons, add]
      split <;> omega
    rw [addAll, List.foldl_cons, ← addAll, ih, hcount]
    simp [add, Nat.add_assoc, Nat.add_comm, Nat.add_left_comm]

theorem addAll_cons (report : ReplayReport) (f : FileReport) (fs : List FileReport) :
    report.addAll (f :: fs) = (report.add f).addAll fs := rfl

/-- The highest number has no part in how files are added. -/
theorem addAll_maxId (report : ReplayReport) (maxId : Option SegmentId) (fs : List FileReport) :
    ({ report with maxId } : ReplayReport).addAll fs = { report.addAll fs with maxId } := by
  rw [addAll_eq, addAll_eq]

end ReplayReport

namespace Disk

/-- What is found in a segment file, as far as it can be read. -/
def scan (d : Disk) (p : Path) : Scan := (d.reading p).scan

/-- The records of a segment file with their positions. -/
def recordsIn (d : Disk) (e : SegmentName × Path) : List (Position × Bytes) :=
  positioned e.1.id (d.scan e.2).records

/-- What a replay reports of a segment file that was replayed from its beginning. -/
def reportOn (d : Disk) (e : SegmentName × Path) : FileReport where
  name := e.1
  path := e.2
  applied := (d.scan e.2).records.length
  passed := 0
  tail := (d.scan e.2).tail
  stop := (d.scan e.2).stop

/-- What a replay reports of segment files that were replayed from their beginning. -/
def reportOnAll (d : Disk) (files : List (SegmentName × Path)) : ReplayReport :=
  { ({} : ReplayReport).addAll (files.map d.reportOn) with
    last := (files.flatMap d.recordsIn).getLast?.map (·.1)
    maxId := (files.map (·.1.id)).max? }

theorem files_reportOnAll (d : Disk) (files : List (SegmentName × Path)) :
    (d.reportOnAll files).files = files.map d.reportOn := by
  rw [reportOnAll, ReplayReport.addAll_eq]
  rfl

theorem scan_of_contents {d : Disk} {p : Path} {bytes : Bytes} (h : d.contents p = .ok bytes) :
    d.scan p = Scan.ofBytes bytes := by
  rw [scan, reading_of_contents h, Reading.scan_ofScan]

/-- A file that can be read to where its records stop ends there. -/
theorem ending_of_reads {d : Disk} {p : Path} (h : d.Reads p) :
    (d.reading p).ending = .ok ((d.scan p).tail, (d.scan p).stop) := by
  obtain ⟨tail, stop, hending⟩ := h
  simp only [scan, Reading.scan, hending]
  rfl

theorem recordsIn_of_contents {d : Disk} {e : SegmentName × Path} {bytes : Bytes}
    (h : d.contents e.2 = .ok bytes) : d.recordsIn e = block e bytes := by
  unfold recordsIn
  rw [scan_of_contents h]
  rfl

theorem reportOn_of_contents {d : Disk} {e : SegmentName × Path} {bytes : Bytes}
    (h : d.contents e.2 = .ok bytes) : d.reportOn e = .ofContent e bytes := by
  unfold reportOn
  rw [scan_of_contents h]
  rfl

end Disk

namespace Replay

variable {r : Replay} {target : Target σ} {d : Disk} {files : List (SegmentName × Path)}

/-! ## Numbers and names -/

/-- The highest number among those of some files and one before, if there is one. -/
def highest (before : Option SegmentId) (ids : List SegmentId) : Option SegmentId :=
  ids.foldl (fun top id => some (max (top.getD 0) id)) before

theorem highest_none (ids : List SegmentId) : highest none ids = ids.max? := by
  have hsome : ∀ (ids : List SegmentId) (top : SegmentId),
      highest (some top) ids = some (ids.foldl max top) := by
    intro ids
    induction ids with
    | nil => exact fun _ => rfl
    | cons id more ih => exact fun top => ih (max top id)
  cases ids with
  | nil => rfl
  | cons id more =>
    have hzero : max 0 id = id := by rw [UInt64.max_def, if_pos UInt64.zero_le]
    rw [List.max?_cons', highest, List.foldl_cons, Option.getD_none, hzero]
    exact hsome more id

/-- Whether a path leads to a segment file by its name, and to one of a version that can be
replayed. -/
def Accepts (r : Replay) (path : Path) : Prop :=
  ∃ name, SegmentName.ofPath r.stem path = .ok name ∧ name.isSupported = true

/-- A path with the name of the segment that it tells. -/
def entry (r : Replay) (path : Path) : SegmentName × Path :=
  ((SegmentName.ofPath r.stem path).toOption.getD default, path)

theorem entry_of_ofPath {path : Path} {name : SegmentName}
    (h : SegmentName.ofPath r.stem path = .ok name) : r.entry path = (name, path) := by
  unfold entry
  rw [h]
  rfl

theorem names_of_accepts {paths : List Path} (h : ∀ path ∈ paths, r.Accepts path) :
    r.names paths = .ok (paths.map r.entry) := by
  induction paths with
  | nil => rfl
  | cons path more ih =>
    obtain ⟨⟨name, hname, hsupported⟩, hmore⟩ := List.forall_mem_cons.mp h
    simp [names, hname, SegmentName.requireSupported, hsupported, ih hmore, entry_of_ofPath hname]

theorem accepts_of_names {paths : List Path} {named : List (SegmentName × Path)}
    (h : r.names paths = .ok named) : ∀ path ∈ paths, r.Accepts path := by
  induction paths generalizing named with
  | nil => simp
  | cons path more ih =>
    unfold names at h
    split at h
    · cases h
    rename_i name hname
    split at h
    · cases h
    rename_i hsupported
    split at h
    · cases h
    rename_i rest hrest
    refine List.forall_mem_cons.mpr ⟨⟨name, hname, ?_⟩, ih hrest⟩
    unfold SegmentName.requireSupported at hsupported
    split at hsupported
    · assumption
    · cases hsupported

/-- The names of the files are those of the paths, in their order. -/
theorem names_eq_ok {paths : List Path} {named : List (SegmentName × Path)}
    (h : r.names paths = .ok named) :
    named.map (·.2) = paths ∧ ∀ e ∈ named, SegmentName.ofPath r.stem e.2 = .ok e.1 := by
  induction paths generalizing named with
  | nil =>
    cases h
    exact ⟨rfl, by simp⟩
  | cons path more ih =>
    rw [names] at h
    split at h
    · cases h
    rename_i name hname
    split at h
    · cases h
    split at h
    · cases h
    rename_i rest hrest
    cases h
    obtain ⟨hpaths, hall⟩ := ih hrest
    exact ⟨congrArg (path :: ·) hpaths, List.forall_mem_cons.mpr ⟨hname, hall⟩⟩

/-- All files are of versions that can be replayed, or one of them is not. -/
theorem names_cases (hnames : ∀ e ∈ files, SegmentName.ofPath r.stem e.2 = .ok e.1) :
    ((∀ e ∈ files, e.1.isSupported = true) ∧ r.names (files.map (·.2)) = .ok files) ∨
    ∃ e ∈ files, e.1.isSupported = false ∧ r.names (files.map (·.2)) =
      .error (.unsupportedVersion e.1.version SegmentName.currentVersion) := by
  induction files with
  | nil => exact .inl ⟨fun _ he => (nomatch he), rfl⟩
  | cons e more ih =>
    obtain ⟨he, hmore⟩ := List.forall_mem_cons.mp hnames
    rw [List.map_cons, names, he]
    dsimp only
    cases hsupported : e.1.isSupported with
    | false =>
      refine .inr ⟨e, List.mem_cons_self, hsupported, ?_⟩
      simp only [SegmentName.requireSupported, hsupported, Bool.false_eq_true, if_false]
    | true =>
      simp only [SegmentName.requireSupported, hsupported, if_true]
      rcases ih hmore with ⟨hall, hrest⟩ | ⟨u, hu, hlater, hrest⟩
      · rw [hrest]
        exact .inl ⟨List.forall_mem_cons.mpr ⟨hsupported, hall⟩, rfl⟩
      · rw [hrest]
        exact .inr ⟨u, List.mem_cons_of_mem _ hu, hlater, rfl⟩

theorem names_of_supported (hnames : ∀ e ∈ files, SegmentName.ofPath r.stem e.2 = .ok e.1)
    (hsupported : ∀ e ∈ files, e.1.isSupported = true) :
    r.names (files.map (·.2)) = .ok files := by
  rcases names_cases hnames with ⟨-, h⟩ | ⟨e, he, hlater, -⟩
  · exact h
  · rw [hsupported e he] at hlater
    cases hlater

/-- Once all names are accepted, the files are replayed in their order, and the target flushes. -/
theorem run_of_names {paths : List Path} {named : List (SegmentName × Path)}
    (h : r.names paths = .ok named) (target : Target σ) (d : Disk) (s : σ) :
    r.run target d paths s =
      match r.files target d (named.mergeSort inOrder) {} { state := s } with
      | (.error e, p) => (.error e, p.state)
      | (.ok report, p) =>
        match target.flush p.state with
        | (.error reason, s) => (.error (.refused (report.last.getD .start) reason), s)
        | (.ok (), s) => (.ok report, s) := by
  unfold run
  rw [h]
  rfl

end Replay

end SegmentLog
