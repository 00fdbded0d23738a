import SegmentLog.Proofs.Replay.Summary

/-!
# What the inspection tool prints of files

The inspection tool prints segment files one by one, in the order in which they are named, by
replaying each of them into a target that prints. A replay of the same files sorts them first, and
looks at all names before it opens the first file. The tool prints of each file what the replay
makes of it; but it does not look at the version in a name, and so prints files that no replay
accepts.

* `feed_printer`, `file_printer` — what is printed of one file;
* `dumpEach_named`, `dump_succeeds_iff` — what is printed of many, and when that ends well;
* `Replay.run_succeeds_iff` — which files are replayed;
* `dump_agrees` — the two compared.
-/

namespace SegmentLog

/-- What was found in a file: the report on it, and its records. -/
structure Page where
  report : FileReport
  records : List (Position × Bytes)
  deriving DecidableEq, Repr

/-- What is found in a segment file that is read from its beginning. -/
def Disk.page (d : Disk) (e : SegmentName × Path) : Page := ⟨d.reportOn e, d.recordsIn e⟩

variable {d : Disk} {stem : String} {paths : List Path} {files : List (SegmentName × Path)}

namespace Replay

theorem map_entry (r : Replay) (paths : List Path) : (paths.map r.entry).map (·.2) = paths := by
  rw [List.map_map]
  exact List.map_id paths

/-- Paths with names of segments are entered with these names. -/
theorem ofPath_entry {r : Replay}
    (h : ∀ path ∈ paths, ∃ name, SegmentName.ofPath r.stem path = .ok name) :
    ∀ e ∈ paths.map r.entry, SegmentName.ofPath r.stem e.2 = .ok e.1 := by
  intro e he
  obtain ⟨path, hpath, rfl⟩ := List.mem_map.mp he
  obtain ⟨name, hname⟩ := h path hpath
  rw [entry_of_ofPath hname]
  exact hname

end Replay

namespace Inspection

/-- A page in print: the name of the file, a line for each record, and where the reading stopped. -/
def pageLines (page : Page) : List String :=
  fileText page.report.name page.report.path ::
    page.records.map (fun q => recordText q.1.offset q.2) ++
    [stopText page.records.length page.report.stop page.report.tail]

/-- Of a long payload only the beginning is printed. -/
example :
    pageLines ⟨⟨⟨7, 3⟩, .ofString "CommitLog-3-7.log", 2, 0, .truncated, 45⟩,
      [(⟨7, 0⟩, [0, 171, 255]), (⟨7, 15⟩, (List.range 18).map UInt8.ofNat)]⟩ =
    ["CommitLog-3-7.log (id 7, version 3)",
     "           0         3 bytes  00abff",
     "          15        18 bytes  000102030405060708090a0b0c0d0e0f",
     "  2 records, stopped at offset 45 (Truncated)"] := by
  decide +kernel

/-- What is printed below other lines. -/
theorem feed_printer (records : List (Position × Bytes)) (lines : List String) :
    printer.feed records lines = lines ++ records.map fun q => recordText q.1.offset q.2 := by
  induction records generalizing lines with
  | nil => exact (List.append_nil lines).symm
  | cons q more ih =>
    unfold Target.feed at ih ⊢
    rw [List.foldl_cons, ih, List.map_cons, ← recordLine_eq]
    exact List.append_assoc ..

/-- A file that can be read is printed record by record. -/
theorem file_printer (stem : String) {e : SegmentName × Path} {bytes : Bytes}
    (hd : d.contents e.2 = .ok bytes) (p : Progress (List String)) :
    ∃ p', ({ stem } : Replay).file printer d e.1 e.2 p = (.ok (d.reportOn e), p') ∧
      p'.state = p.state ++ (d.recordsIn e).map fun q => recordText q.1.offset q.2 := by
  have hprinter : printer.Accepting := Target.accepting_total _
  rw [Replay.file_accepting rfl hprinter hd, Disk.reportOn_of_contents hd,
    Disk.recordsIn_of_contents hd]
  exact ⟨_, rfl, feed_printer _ _⟩

/-- Files that can be read, and whose names are known, are printed one after the other. -/
theorem dumpEach_named (hnames : ∀ e ∈ files, SegmentName.ofPath stem e.2 = .ok e.1)
    (hd : ∀ e ∈ files, ∃ bytes, d.contents e.2 = .ok bytes) (p : Progress (List String)) :
    dumpEach d stem (files.map (·.2)) p =
      ⟨p.state ++ files.flatMap fun e => pageLines (d.page e), none⟩ := by
  induction files generalizing p with
  | nil => simp [dumpEach]
  | cons e more ih =>
    obtain ⟨hname, hnames⟩ := List.forall_mem_cons.mp hnames
    obtain ⟨⟨bytes, hbytes⟩, hd⟩ := List.forall_mem_cons.mp hd
    obtain ⟨p', hfile, hstate⟩ :=
      file_printer stem hbytes { p with state := p.state ++ [fileLine e.1 e.2] }
    rw [List.map_cons, dumpEach, hname]
    dsimp only
    rw [hfile]
    dsimp only
    have hcount : (d.reportOn e).applied = (d.recordsIn e).length := (List.length_map _).symm
    rw [ih hnames hd, hstate, fileLine_eq, stopLine_eq, hcount]
    simp [pageLines, Disk.page, Disk.reportOn]

/-- A name that is none of a segment ends the printing with an error, there or before. -/
theorem dumpEach_of_unnamed {path : Path} (hpath : path ∈ paths)
    (h : ∀ name, SegmentName.ofPath stem path ≠ .ok name) (d : Disk)
    (p : Progress (List String)) : (dumpEach d stem paths p).error ≠ none := by
  induction paths generalizing p with
  | nil => cases hpath
  | cons first more ih =>
    rw [dumpEach]
    split
    · exact Option.some_ne_none _
    · rename_i name hname
      have hmore : path ∈ more := by
        rcases List.mem_cons.mp hpath with rfl | hmore
        · exact absurd hname (h name)
        · exact hmore
      dsimp only
      split
      · exact Option.some_ne_none _
      · exact ih hmore _

/-- Files that can be read, with names of segments, are printed page by page. -/
theorem dump_eq (hd : ∀ path ∈ paths, ∃ bytes, d.contents path = .ok bytes)
    (hall : ∀ path ∈ paths, ∃ name, SegmentName.ofPath stem path = .ok name) :
    dump d stem paths =
      ⟨(paths.map ({ stem } : Replay).entry).flatMap fun e => pageLines (d.page e), none⟩ := by
  have hprinted := dumpEach_named (d := d) (Replay.ofPath_entry (r := { stem }) hall)
    (List.forall_mem_map.mpr hd) { state := [] }
  rw [Replay.map_entry] at hprinted
  rw [dump, hprinted]
  rfl

/-- Files that can be read are printed to the end exactly if they all have names of segments. -/
theorem dump_succeeds_iff (hd : ∀ path ∈ paths, ∃ bytes, d.contents path = .ok bytes) :
    (dump d stem paths).error = none ↔
      ∀ path ∈ paths, ∃ name, SegmentName.ofPath stem path = .ok name := by
  constructor
  · intro hprinted path hpath
    by_contra hnone
    exact dumpEach_of_unnamed hpath (not_exists.mp hnone) d _ hprinted
  · intro hall
    rw [dump_eq hd hall]

/-- A call of the tool that is to print files ends as the printing does. -/
theorem run_dump {args : List String} (h : read args = .ok (.run stem (.dump paths))) (d : Disk) :
    (run args d).lines = (dump d stem paths).lines ∧
      ((run args d).status = 0 ↔ (dump d stem paths).error = none) := by
  unfold run
  rw [h]
  dsimp only
  rw [report]
  cases (dump d stem paths).error <;> simp

end Inspection

namespace Replay

variable {σ : Type} {target : Target σ} {r : Replay}

/-- Files that can be read are replayed exactly if they all have names of segments of versions that
can be replayed. -/
theorem run_succeeds_iff (ht : target.NeverFails)
    (hd : ∀ path ∈ paths, ∃ bytes, d.contents path = .ok bytes) (s : σ) :
    (∃ report s', r.run target d paths s = (.ok report, s')) ↔ ∀ path ∈ paths, r.Accepts path := by
  constructor
  · rintro ⟨report, s', hrun⟩ path hpath
    by_contra hnot
    obtain ⟨e, herror⟩ := run_of_not_accepts hpath hnot target d s
    rw [hrun] at herror
    cases herror
  · intro hall
    exact ⟨_, _, run_neverFails ht (opens_of_accepts hall hd) s⟩

end Replay

namespace Inspection

/-- All names are those of segments exactly if all are accepted, unless one tells a later
version. -/
theorem named_iff_accepts_iff (paths : List Path) :
    ((∀ path ∈ paths, ∃ name, SegmentName.ofPath stem path = .ok name) ↔
        ∀ path ∈ paths, ({ stem } : Replay).Accepts path) ↔
      (∃ path ∈ paths, ∀ name, SegmentName.ofPath stem path ≠ .ok name) ∨
        ∀ path ∈ paths, ∀ name, SegmentName.ofPath stem path = .ok name →
          name.version ≤ SegmentName.currentVersion := by
  constructor
  · intro hagree
    by_cases hall : ∀ path ∈ paths, ∃ name, SegmentName.ofPath stem path = .ok name
    · refine .inr fun path hpath name hname => ?_
      obtain ⟨name', hname', hsupported⟩ := hagree.mp hall path hpath
      rw [show SegmentName.ofPath stem path = .ok name' from hname'] at hname
      cases hname
      exact of_decide_eq_true hsupported
    · exact .inl (by simpa using hall)
  · rintro (⟨path, hpath, hnone⟩ | hversions)
    · refine iff_of_false (fun hall => ?_) fun hall => ?_
      · obtain ⟨name, hname⟩ := hall path hpath
        exact hnone name hname
      · obtain ⟨name, hname, -⟩ := hall path hpath
        exact hnone name hname
    · refine forall₂_congr fun path hpath => exists_congr fun name => ?_
      exact ⟨fun hname => ⟨hname, decide_eq_true (hversions path hpath name hname)⟩, And.left⟩

/-- **What is printed of files is what a replay makes of them**, unless it refuses a version. Of
files that can be read, the tool prints all exactly if all have names of segments; a replay of them
into a target that never fails also asks for versions that can be replayed. So the one ends well
exactly if the other does, unless all names are those of segments and one tells a later version. And
whenever the files are replayed, the tool prints them all: there is one page for each of them, with
the report on it and the records that the target was asked to take in from it, and the pages are
printed in the order in which the files were named, with the offset, the length and the first
sixteen bytes of each record, and with the place and the reason where they stop. -/
theorem dump_agrees (stem : String) (hd : ∀ path ∈ paths, ∃ bytes, d.contents path = .ok bytes)
    {σ : Type} {target : Target σ} (ht : target.NeverFails) (s : σ) :
    (((dump d stem paths).error = none ↔
        ∃ report s', ({ stem } : Replay).run target d paths s = (.ok report, s')) ↔
      (∃ path ∈ paths, ∀ name, SegmentName.ofPath stem path ≠ .ok name) ∨
        ∀ path ∈ paths, ∀ name, SegmentName.ofPath stem path = .ok name →
          name.version ≤ SegmentName.currentVersion) ∧
    (∀ report s', ({ stem } : Replay).run target d paths s = (.ok report, s') →
      ∃ pages : List Page, report.files = pages.map (·.report) ∧
        ({ stem } : Replay).received target d paths s = pages.flatMap (·.records) ∧
        (∀ page ∈ pages, page.report.applied = page.records.length ∧
          ∀ q ∈ page.records, q.1.segment = page.report.name.id) ∧
        ∃ shown : List Page, shown.Perm pages ∧ shown.map (·.report.path) = paths ∧
          dump d stem paths = ⟨shown.flatMap pageLines, none⟩) ∧
    ∀ args, read args = .ok (.run stem (.dump paths)) →
      (run args d).lines = (dump d stem paths).lines ∧
        ((run args d).status = 0 ↔ (dump d stem paths).error = none) := by
  refine ⟨?_, fun report s' hrun => ?_, fun args hargs => run_dump hargs d⟩
  · rw [dump_succeeds_iff hd, Replay.run_succeeds_iff ht hd]
    exact named_iff_accepts_iff paths
  · have hall := (Replay.run_succeeds_iff ht hd s).mp ⟨report, s', hrun⟩
    have hnamed : ∀ path ∈ paths, ∃ name, SegmentName.ofPath stem path = .ok name :=
      fun path hpath => (hall path hpath).imp fun _ => And.left
    have hopens := Replay.opens_of_accepts hall hd
    have hperm := List.mergeSort_perm (paths.map ({ stem } : Replay).entry) inOrder
    rw [Replay.run_neverFails ht hopens, Replay.reportOnAll_start rfl] at hrun
    cases hrun
    refine ⟨((paths.map ({ stem } : Replay).entry).mergeSort inOrder).map d.page, ?_, ?_, ?_,
      (paths.map ({ stem } : Replay).entry).map d.page, hperm.symm.map _, ?_, ?_⟩
    · rw [Disk.files_reportOnAll, List.map_map]
      rfl
    · rw [Replay.received_neverFails ht hopens, Replay.recordsOf_start rfl, List.flatMap_map]
      rfl
    · intro page hpage
      obtain ⟨e, -, rfl⟩ := List.mem_map.mp hpage
      refine ⟨(List.length_map _).symm, fun q hq => ?_⟩
      obtain ⟨record, -, rfl⟩ := List.mem_map.mp hq
      rfl
    · rw [List.map_map]
      exact Replay.map_entry { stem } paths
    · rw [dump_eq hd hnamed]
      simp only [List.flatMap_map]

/-- Two files are printed in the order in which they are named, whatever the order in which they are
replayed. -/
theorem dump_agrees_reversed :
    let d := (({} : Disk).put (.ofString "CommitLog-3-7.log") (Frame.spell [[1, 2, 3]])).put
      (.ofString "CommitLog-8.log") (Frame.spell [[4]])
    let paths : List Path := [.ofString "CommitLog-8.log", .ofString "CommitLog-3-7.log"]
    ((dump d defaultStem paths).error = none ↔
      ∃ report s', ({} : Replay).run counter d paths 0 = (.ok report, s')) ∧
    ∃ pages shown : List Page, pages.map (·.report.name) = [⟨7, 3⟩, ⟨8, 1⟩] ∧
      shown.Perm pages ∧ shown.map (·.report.path) = paths ∧
      dump d defaultStem paths = ⟨shown.flatMap pageLines, none⟩ := by
  intro d paths
  have hd : ∀ path ∈ paths, ∃ bytes, d.contents path = .ok bytes := by
    simp only [paths, List.forall_mem_cons]
    exact ⟨⟨_, rfl⟩, ⟨_, rfl⟩, by simp⟩
  have hfirst : SegmentName.ofPath defaultStem (.ofString "CommitLog-8.log") = .ok ⟨8, 1⟩ := by
    decide +kernel
  have hsecond : SegmentName.ofPath defaultStem (.ofString "CommitLog-3-7.log") = .ok ⟨7, 3⟩ := by
    decide +kernel
  have hall : ∀ path ∈ paths, ({} : Replay).Accepts path := by
    simp only [paths, List.forall_mem_cons]
    exact ⟨⟨_, hfirst, rfl⟩, ⟨_, hsecond, rfl⟩, by simp⟩
  obtain ⟨report, s', hrun⟩ := (Replay.run_succeeds_iff neverFails_counter hd 0).mpr hall
  obtain ⟨hagree, hpages, -⟩ := dump_agrees defaultStem hd neverFails_counter 0
  obtain ⟨pages, hreports, -, -, shown, hperm, hshown, hprinted⟩ := hpages report s' hrun
  refine ⟨hagree.mpr (.inr ?_), pages, shown, ?_, hperm, hshown, hprinted⟩
  · simp only [paths, List.forall_mem_cons, hfirst, hsecond, Except.ok.injEq, forall_eq']
    exact ⟨by decide, by decide, by simp⟩
  · have hopens := Replay.opens_of_accepts hall hd
    have hsorted : ((paths.map ({} : Replay).entry).mergeSort inOrder).map (·.1) =
        [⟨7, 3⟩, ⟨8, 1⟩] := by
      simp only [paths, List.map_cons, List.map_nil, Replay.entry_of_ofPath (r := {}) hfirst,
        Replay.entry_of_ofPath (r := {}) hsecond]
      rw [mergeSort_eq_of_perm (.swap ..) (by simp), List.mergeSort_of_pairwise (by decide +kernel)]
      rfl
    rw [Replay.run_neverFails neverFails_counter hopens, Replay.reportOnAll_start rfl] at hrun
    cases hrun
    have hnames := congrArg (List.map FileReport.name) hreports
    rw [Disk.files_reportOnAll, List.map_map, List.map_map] at hnames
    rw [← hsorted]
    exact hnames.symm

/-- A file of a later version is printed, and no replay accepts it. -/
theorem dump_shows_later_version :
    let d := ({} : Disk).put (.ofString "CommitLog-4-7.log") (Frame.spell [[97, 98, 99]])
    (dump d defaultStem [.ofString "CommitLog-4-7.log"]).error = none ∧
    ({} : Replay).run counter d [.ofString "CommitLog-4-7.log"] 0 =
      (.error (.unsupportedVersion 4 SegmentName.currentVersion), 0) ∧
    ¬ ((dump d defaultStem [.ofString "CommitLog-4-7.log"]).error = none ↔
      ∃ report s', ({} : Replay).run counter d [.ofString "CommitLog-4-7.log"] 0 =
        (.ok report, s')) := by
  intro d
  have hname : SegmentName.ofPath defaultStem (.ofString "CommitLog-4-7.log") = .ok ⟨7, 4⟩ := by
    decide +kernel
  have hd : ∀ path ∈ [Path.ofString "CommitLog-4-7.log"], ∃ bytes, d.contents path = .ok bytes := by
    simp only [List.forall_mem_cons]
    exact ⟨⟨_, rfl⟩, by simp⟩
  have hprinted : (dump d defaultStem [.ofString "CommitLog-4-7.log"]).error = none := by
    rw [dump_succeeds_iff hd]
    simp only [List.forall_mem_cons]
    exact ⟨⟨_, hname⟩, by simp⟩
  have hrefused : ({} : Replay).run counter d [.ofString "CommitLog-4-7.log"] 0 =
      (.error (.unsupportedVersion 4 SegmentName.currentVersion), 0) := by
    have hnames : ({} : Replay).names [.ofString "CommitLog-4-7.log"] =
        .error (.unsupportedVersion 4 SegmentName.currentVersion) := by
      rw [Replay.names, hname]
      rfl
    rw [Replay.run, hnames]
  refine ⟨hprinted, hrefused, fun hagree => ?_⟩
  obtain ⟨report, s', hrun⟩ := hagree.mp hprinted
  rw [hrefused] at hrun
  cases hrun

end Inspection

end SegmentLog
