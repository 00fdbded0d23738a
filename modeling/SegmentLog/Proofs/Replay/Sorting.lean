import SegmentLog.Proofs.Replay.Refusal
import SegmentLog.Proofs.Segment.Order

/-!
# The order in which files are replayed

Segment files are replayed by number, then by version, in whatever order they are given. Where no
two of them agree in both there is only one such order, so that the order in which they are given
makes no difference; and where no two agree in the number, the positions of the records ascend.
All names are looked at before the target is asked for anything.

* `ascending_recordsOf` — the positions of records in files of ascending numbers;
* `received_isPrefix` — whatever ends a replay, its records come in the order of the files;
* `order_ignored` — replays of the same files in different orders.
-/

namespace SegmentLog

variable {σ : Type}

namespace Replay

variable {r : Replay} {target : Target σ} {d : Disk} {files named : List (SegmentName × Path)}
  {paths paths' : List Path} {s : σ}

/-! ## The order of records -/

/-- The positions of the records ascend if the numbers of the files do. -/
theorem ascending_recordsOf (d : Disk)
    (hascending : files.Pairwise fun a b => a.1.id < b.1.id) :
    (r.recordsOf d files).Pairwise fun p q => p.1 < q.1 := by
  apply List.Pairwise.filter
  exact ascending_positioned (fun e => d.ascending_reading e.2) hascending

/-- Whether or not files can be read, and whether or not the target refuses, a replay asks for the
records of the files one after the other, up to some point. -/
theorem received_isPrefix (target : Target σ) (d : Disk) (hnames : r.names paths = .ok named)
    (hsorted : named.mergeSort inOrder = files) (s : σ) :
    r.received target d paths s <+: r.recordsOf d files := by
  unfold received requests
  rw [run_of_names hnames, hsorted]
  rcases files_offer (r := r) target.observed d files {} { state := (s, []) } with
    ⟨p', -, hoffer, h⟩ | ⟨before, e, after, hfiles, -, -, hends⟩
  · have hflush : target.observed.flush p'.state =
      ((target.flush p'.state.1).1, ((target.flush p'.state.1).2, p'.state.2 ++ [.flush])) := rfl
    have hreceived : (p'.state.2 ++ [Request.flush]).filterMap Request.record? =
        target.asked (r.recordsOf d files) s := by
      rw [Target.requests_of_offer hoffer, List.filterMap_append, filterMap_record?]
      simp [Request.record?]
    rw [h]
    dsimp only
    rw [hflush]
    cases (target.flush p'.state.1).1 with
    | error reason => exact hreceived ▸ Target.asked_isPrefix ..
    | ok => exact hreceived ▸ Target.asked_isPrefix ..
  · have hfront : r.recordsOf d (before ++ [e]) <+: r.recordsOf d files := by
      rw [recordsOf_through r d hfiles]
      exact List.prefix_append ..
    rcases hends with ⟨q, reason, p', hoffer, h⟩ | ⟨cause, p', -, hoffer, h⟩
    all_goals
      rw [h]
      dsimp only
      rw [Target.requests_of_offer hoffer, filterMap_record?]
      exact (Target.asked_isPrefix ..).trans hfront

/-! ## Replays in different orders -/

/-- Files of different names are replayed in one way, in whatever order they are given. -/
theorem run_perm (hpaths : ∀ path ∈ paths, r.Accepts path)
    (hdistinct : paths.Pairwise fun p q =>
      SegmentName.ofPath r.stem p ≠ SegmentName.ofPath r.stem q)
    (hperm : paths'.Perm paths) (target : Target σ) (d : Disk) (s : σ) :
    r.run target d paths' s = r.run target d paths s := by
  have hpaths' : ∀ path ∈ paths', r.Accepts path := fun path h => hpaths path (hperm.subset h)
  have hnames : (paths.map r.entry).Pairwise fun a b => a.1 ≠ b.1 := by
    refine List.pairwise_map.mpr (hdistinct.imp_of_mem ?_)
    intro p q hp hq hne heq
    obtain ⟨m, hm, -⟩ := hpaths p hp
    obtain ⟨n, hn, -⟩ := hpaths q hq
    rw [entry_of_ofPath hm, entry_of_ofPath hn] at heq
    apply hne
    rw [hm, hn, show m = n from heq]
  have hsorted := mergeSort_eq_of_perm (hperm.map r.entry) hnames
  rw [run_of_names (names_of_accepts hpaths), run_of_names (names_of_accepts hpaths'), hsorted]

/-- A path that is not accepted ends a replay before the target is asked for anything. -/
theorem run_of_not_accepts {path : Path} (hpath : path ∈ paths) (h : ¬ r.Accepts path)
    (target : Target σ) (d : Disk) (s : σ) : ∃ e, r.run target d paths s = (.error e, s) := by
  cases hnames : r.names paths with
  | ok named => exact absurd (accepts_of_names hnames path hpath) h
  | error e =>
    refine ⟨e, ?_⟩
    unfold run
    rw [hnames]

/-- **The order in which files are given is ignored, and their names come first.** If all paths lead
to segment files of versions that can be replayed, no two with the same name, then in whatever order
they are given, the target is asked for the same, and the replay ends the same way; and if no two
have the same number, the positions of the records that the target is asked to take in ascend. If
one of the paths leads to none, then in whatever order they are given, the replay ends with an
error, and the target is asked for nothing. -/
theorem order_ignored (r : Replay) (target : Target σ) (d : Disk) (paths : List Path) (s : σ) :
    ((∀ path ∈ paths, r.Accepts path) →
      (paths.Pairwise fun p q => SegmentName.ofPath r.stem p ≠ SegmentName.ofPath r.stem q) →
      (∀ paths', paths'.Perm paths →
        r.requests target d paths' s = r.requests target d paths s ∧
        r.run target d paths' s = r.run target d paths s) ∧
      ((paths.Pairwise fun p q => ∀ m n, SegmentName.ofPath r.stem p = .ok m →
          SegmentName.ofPath r.stem q = .ok n → m.id ≠ n.id) →
        (r.received target d paths s).Pairwise fun a b => a.1 < b.1)) ∧
    ((∃ path ∈ paths, ¬ r.Accepts path) → ∀ paths', paths'.Perm paths →
        (∃ e, r.run target d paths' s = (.error e, s)) ∧ r.requests target d paths' s = []) := by
  refine ⟨fun hpaths hdistinct => ⟨fun paths' hperm => ⟨?_, ?_⟩, fun hids => ?_⟩, ?_⟩
  · unfold requests
    rw [run_perm hpaths hdistinct hperm]
  · exact run_perm hpaths hdistinct hperm target d s
  · have hnumbers : (paths.map r.entry).Pairwise fun a b => a.1.id ≠ b.1.id := by
      refine List.pairwise_map.mpr (hids.imp_of_mem ?_)
      intro p q hp hq hne
      obtain ⟨m, hm, -⟩ := hpaths p hp
      obtain ⟨n, hn, -⟩ := hpaths q hq
      rw [entry_of_ofPath hm, entry_of_ofPath hn]
      exact hne m n hm hn
    have hall := ascending_recordsOf (r := r) d (ascending_mergeSort hnumbers)
    exact hall.sublist (received_isPrefix target d (names_of_accepts hpaths) rfl s).sublist
  · rintro ⟨path, hpath, h⟩ paths' hperm
    have hmem := hperm.symm.subset hpath
    refine ⟨run_of_not_accepts hmem h target d s, ?_⟩
    obtain ⟨e, hrun⟩ := run_of_not_accepts hmem h target.observed d (s, [])
    unfold requests
    rw [hrun]

/-- Two files in the wrong order are replayed as if they were in the right one; beside a file of a
later version neither of them is. -/
theorem order_ignored_reversed :
    let target := Recorder.target none true "full"
    let d := (({} : Disk).put (.ofString "CommitLog-3-7.log") (Frame.spell [[9]])).put
      (.ofString "CommitLog-3-8.log") (Frame.spell [[1, 2, 3], [4]])
    (({} : Replay).run target d [.ofString "CommitLog-3-8.log", .ofString "CommitLog-3-7.log"] {} =
        ({} : Replay).run target d
          [.ofString "CommitLog-3-7.log", .ofString "CommitLog-3-8.log"] {} ∧
      (({} : Replay).received target d
        [.ofString "CommitLog-3-7.log", .ofString "CommitLog-3-8.log"] {}).Pairwise
          fun a b => a.1 < b.1) ∧
      ({} : Replay).requests target d
        [.ofString "CommitLog-3-8.log", .ofString "CommitLog-4-9.log",
          .ofString "CommitLog-3-7.log"] {} = [] := by
  intro target d
  constructor
  · have hgiven := (order_ignored {} target d
      [.ofString "CommitLog-3-7.log", .ofString "CommitLog-3-8.log"] {}).1
    have hfirst : SegmentName.ofPath defaultStem (.ofString "CommitLog-3-7.log") = .ok ⟨7, 3⟩ := by
      decide +kernel
    have hsecond : SegmentName.ofPath defaultStem (.ofString "CommitLog-3-8.log") =
      .ok ⟨8, 3⟩ := by decide +kernel
    have hpaths : ∀ path ∈ ([.ofString "CommitLog-3-7.log", .ofString "CommitLog-3-8.log"] :
        List Path), ({} : Replay).Accepts path := by
      simp only [List.forall_mem_cons]
      exact ⟨⟨_, hfirst, rfl⟩, ⟨_, hsecond, rfl⟩, by simp⟩
    obtain ⟨hsame, hascending⟩ := hgiven hpaths (by simp [hfirst, hsecond])
    exact ⟨(hsame _ (.swap ..)).2, hascending (by simp [hfirst, hsecond])⟩
  · have hgiven := (order_ignored {} target d [.ofString "CommitLog-4-9.log",
      .ofString "CommitLog-3-8.log", .ofString "CommitLog-3-7.log"] {}).2
    have hlater : SegmentName.ofPath defaultStem (.ofString "CommitLog-4-9.log") = .ok ⟨9, 4⟩ := by
      decide +kernel
    have hrefused : ¬ ({} : Replay).Accepts (.ofString "CommitLog-4-9.log") := by
      rintro ⟨name, hname, hsupported⟩
      rw [show SegmentName.ofPath ({} : Replay).stem _ = _ from hlater] at hname
      cases hname
      cases hsupported
    exact (hgiven ⟨_, List.mem_cons_self, hrefused⟩ _ (.swap ..)).2

end Replay

end SegmentLog
