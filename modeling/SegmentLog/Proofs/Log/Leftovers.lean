import SegmentLog.Proofs.Concurrent.States
import SegmentLog.Proofs.Store.Leftovers

/-!
# Leftovers that are taken over

A log may be asked to take over what others have left in its directory in any state, and after any
change that others have made to the disk. Some of the files may be of a later version, or cannot be
opened or read to their ends, and the target may refuse any record and may fail to flush. Either all
leftovers are replayed and removed, or all of them stay, and then a second try begins with the same
files.

* `leftovers_all_or_nothing` — so it is in every state that a store can be in.
-/

namespace SegmentLog.Store

variable {σ : Type}

/-- **The leftovers of a store are taken over as a whole, or stay.** Take a store that was opened
with any settings on any disk, any state that it comes to after that, by the requests of one caller
or with any number of callers and recoveries, and whatever others have made of the disk meanwhile,
as long as files that were made keep their identities; and let no removal fail. A recovery that
fails leaves the store and its disk as they were, whether the directory cannot be listed, a file is
of a later version, a file cannot be opened or read any further, a record is refused, or the target
cannot flush. A recovery that succeeds has replayed just the leftovers, in their order, and removed
just them; the other entries of the directory and the segments of the store are as they were, and
the numbers of new segments are above those of the leftovers. -/
theorem leftovers_all_or_nothing {settings : Settings} {now : UInt64} {disk d : Disk}
    {monitor : Monitor} {opened s u t : Store}
    (hopen : onDirectory settings now disk monitor = .ok opened) (hdisk : disk.WellFormed)
    (hs : opened.Reached Scene.Anything s) (hd : d.WellFormed)
    (hfiles : s.disk.files.size ≤ d.files.size) (hremove : ∀ f ∈ d.faults.remove, f = none)
    (hu : u = { s with disk := d })
    {target : Target σ} {state state' : σ} {result : Except LogError ReplayReport}
    (h : u.replayLeftovers target state = (result, t, state')) :
    (∀ e, result = .error e → t = u ∧
      ((∃ cause, d.entries settings.directory = .error cause ∧ e = .io (.disk cause) ∧
          state' = state) ∨
        ∃ left, u.Leftovers left ∧ left ≠ [] ∧
          Replay.Outcome target d left state (.error e) state')) ∧
    ∀ report, result = .ok report → ∃ left, u.Leftovers left ∧ report = d.reportOnAll left ∧
      (left = [] ∧ state' = state ∨
        left ≠ [] ∧ Replay.Outcome target d left state (.ok report) state') ∧
      u.Emptied t left := by
  obtain ⟨hfiled, hsettings⟩ := hs.filed hopen hdisk
  subst hu
  cases (hfiled.of_disk hd hfiles).takeover hremove h with
  | unlisted hentries =>
    refine ⟨fun e he => ?_, fun report hr => (by cases hr)⟩
    cases he
    exact ⟨rfl, .inl ⟨_, hsettings ▸ hentries, rfl, rfl⟩⟩
  | failed hl hne houtcome =>
    refine ⟨fun e he => ?_, fun report hr => (by cases hr)⟩
    cases he
    exact ⟨rfl, .inr ⟨_, hl, hne, houtcome⟩⟩
  | nothing hl hempty =>
    refine ⟨fun e he => (by cases he), fun report hr => ?_⟩
    cases hr
    exact ⟨[], hl, rfl, .inl ⟨rfl, rfl⟩, hempty⟩
  | taken hl hne houtcome hempty =>
    refine ⟨fun e he => (by cases he), fun report hr => ?_⟩
    cases hr
    exact ⟨_, hl, rfl, .inr ⟨hne, houtcome⟩, hempty⟩

/-- Two segment files of others lie beside that of the store, and a file that is no segment. A
target that refuses the second record leaves everything as it was, and so does a file that cannot be
read behind its first record, which was applied before; and a target that takes in all records gets
them by the numbers of the files. -/
theorem leftovers_all_or_nothing_crowded :
    let s := (blank { directory := ⟨[Path.dot]⟩, segmentSize := 64 } 5).serveAll
      [.append (.raw [⟨1⟩] [1, 2, 3])]
    let d := ((s.disk.put (.ofString "CommitLog-3-7.log")
      (Frame.ofPayload [7, 8, 9] ++ Frame.ofPayload [1])).put (.ofString "CommitLog-2.log")
      (Frame.ofPayload [4])).put (.ofString "notes.txt") [1]
    let spoiled : Option ReadFault → Disk := d.spoil (.ofString "CommitLog-3-7.log")
    let u : Option ReadFault → Store := fun fault => { s with disk := spoiled fault }
    s.active = [0] ∧ (s.segment 0).name = ⟨5, 3⟩ ∧
      (u none).replayLeftovers (Recorder.target (some 2) false "full") {} =
        (.error (.refused ⟨7, 0⟩ "full"), u none, { applied := [(⟨2, 0⟩, [4])], calls := 2 }) ∧
      (u (some (.reading 20 .device))).replayLeftovers (Recorder.target none false "full") {} =
        (.error (.unreadable (.ofString "./CommitLog-3-7.log") .device),
          u (some (.reading 20 .device)),
          { applied := [(⟨2, 0⟩, [4]), (⟨7, 0⟩, [7, 8, 9])], calls := 2 }) ∧
      ∃ report t left, (u none).replayLeftovers (Recorder.target none false "full") {} =
          (.ok report, t,
            { applied := [(⟨2, 0⟩, [4]), (⟨7, 0⟩, [7, 8, 9]), (⟨7, 15⟩, [1])], calls := 3,
              flushes := 1 }) ∧
        (u none).Leftovers left ∧ report = (spoiled none).reportOnAll left ∧
        (u none).Emptied t left := by
  intro s d spoiled u
  let first : SegmentName × Path := (⟨2, 1⟩, .ofString "./CommitLog-2.log")
  let own : SegmentName × Path := (⟨5, 3⟩, .ofString "./CommitLog-3-5.log")
  let second : SegmentName × Path := (⟨7, 3⟩, .ofString "./CommitLog-3-7.log")
  -- whether or not a file can be read, the names are listed with the newest first
  have hlisted : ∀ fault ∈ [none, some (.reading 20 .device)],
      (u fault).disk.entries (u fault).settings.directory = .ok (["notes.txt", "CommitLog-2.log",
        "CommitLog-3-7.log", "CommitLog-3-5.log"].map Utf8.encode) ∧
      (["notes.txt", "CommitLog-2.log", "CommitLog-3-7.log", "CommitLog-3-5.log"].map
        Utf8.encode).filterMap (fun n => segmentFile? (u fault).disk (u fault).settings.stem
          ((u fault).settings.directory.join ⟨n⟩)) = [first, second, own] ∧
      (u fault).foreign [first, own, second] = [first.2, second.2] ∧
      s.disk.files.size ≤ (spoiled fault).files.size ∧
      ∀ f ∈ (spoiled fault).faults.remove, f = none := by decide +kernel
  have hnames : ({ stem := s.settings.stem } : Replay).names [first.2, second.2] =
      .ok [first, second] := by decide +kernel
  have hsorted : [first, second].mergeSort inOrder = [first, second] :=
    List.mergeSort_of_pairwise (by decide +kernel)
  have hsortedAll : [first, second, own].mergeSort inOrder = [first, own, second] := by
    have hbefore : inOrder first second = true ∧ inOrder first own = true ∧
        inOrder second own = false := by decide +kernel
    simp [List.mergeSort, hbefore]
  have hrecovers : ∀ fault ∈ [none, some (.reading 20 .device)], ∀ {target : Target Recorder}
      {result : Except LogError ReplayReport} {after : Recorder},
      ({ stem := (u fault).settings.stem } : Replay).run target (u fault).disk
        [first.2, second.2] {} = (result, after) →
      ∃ t, (u fault).replayLeftovers target {} = (result, t, after) := by
    intro fault hfault target result after hrun
    obtain ⟨hentries, hfiles, hforeign, -⟩ := hlisted fault hfault
    have hfound : segmentFiles (u fault).disk (u fault).settings.directory
        (u fault).settings.stem = .ok [first, own, second] := by
      rw [segmentFiles, hentries]
      dsimp only
      rw [hfiles, hsortedAll]
    exact replayLeftovers_of_run hfound hforeign (List.cons_ne_nil _ _) hrun
  -- the three replays
  have hrefused : ({ stem := (u none).settings.stem } : Replay).run
      (Recorder.target (some 2) false "full") (u none).disk [first.2, second.2] {} =
        (.error (.refused ⟨7, 0⟩ "full"), { applied := [(⟨2, 0⟩, [4])], calls := 2 }) := by
    rw [Replay.run_of_names hnames, hsorted]
    decide +kernel
  have hunreadable : ({ stem := (u (some (.reading 20 .device))).settings.stem } : Replay).run
      (Recorder.target none false "full") (u (some (.reading 20 .device))).disk
        [first.2, second.2] {} =
        (.error (.unreadable (.ofString "./CommitLog-3-7.log") .device),
          { applied := [(⟨2, 0⟩, [4]), (⟨7, 0⟩, [7, 8, 9])], calls := 2 }) := by
    rw [Replay.run_of_names hnames, hsorted]
    decide +kernel
  have htaken : ({ stem := (u none).settings.stem } : Replay).run
      (Recorder.target none false "full") (u none).disk [first.2, second.2] {} =
        (.ok ((u none).disk.reportOnAll [first, second]),
          { applied := [(⟨2, 0⟩, [4]), (⟨7, 0⟩, [7, 8, 9]), (⟨7, 15⟩, [1])], calls := 3,
            flushes := 1 }) := by
    rw [Replay.run_of_names hnames, hsorted]
    decide +kernel
  -- what the theorem says of each of them
  have hopen := onDirectory_blank
    (show Settings.directory { directory := ⟨[Path.dot]⟩, segmentSize := 64 } = ⟨[Path.dot]⟩
      from rfl) 5 {}
  have hdisk : s.disk.WellFormed :=
    ((housed_onDirectory hopen (Disk.wellFormed_empty {})).serveAll _).disk
  have hfirst := Disk.wellFormed_put hdisk (.ofString "CommitLog-3-7.log")
    (Frame.ofPayload [7, 8, 9] ++ Frame.ofPayload [1])
  have hsecond := Disk.wellFormed_put hfirst (.ofString "CommitLog-2.log") (Frame.ofPayload [4])
  have hd : d.WellFormed := Disk.wellFormed_put hsecond (.ofString "notes.txt") [1]
  have hspoiled : ∀ fault, (spoiled fault).WellFormed := Disk.wellFormed_spoil hd _
  have hreached : Reached Scene.Anything _ s := .alone [.append (.raw [⟨1⟩] [1, 2, 3])]
  obtain ⟨-, -, -, hfiles, hremove⟩ := hlisted none (by simp)
  obtain ⟨-, -, -, hfiles', hremove'⟩ := hlisted (some (.reading 20 .device)) (by simp)
  obtain ⟨t₁, h₁⟩ := hrecovers none (by simp) hrefused
  obtain ⟨t₂, h₂⟩ := hrecovers (some (.reading 20 .device)) (by simp) hunreadable
  obtain ⟨t₃, h₃⟩ := hrecovers none (by simp) htaken
  obtain ⟨rfl, -⟩ := (leftovers_all_or_nothing hopen (Disk.wellFormed_empty {}) hreached
    (hspoiled _) hfiles hremove rfl h₁).1 _ rfl
  obtain ⟨rfl, -⟩ := (leftovers_all_or_nothing hopen (Disk.wellFormed_empty {}) hreached
    (hspoiled _) hfiles' hremove' rfl h₂).1 _ rfl
  obtain ⟨left, hl, hreport, -, hemptied⟩ := (leftovers_all_or_nothing hopen
    (Disk.wellFormed_empty {}) hreached (hspoiled _) hfiles hremove rfl h₃).2 _ rfl
  exact ⟨by decide +kernel, by decide +kernel, h₁, h₂, _, t₃, left, h₃, hl, hreport, hemptied⟩

end SegmentLog.Store
