import SegmentLog.Proofs.Concurrent.States
import SegmentLog.Proofs.Log.Session
import SegmentLog.Proofs.Store.Leftovers
import SegmentLog.Proofs.Store.Listing

/-!
# Segments that are found again

What a log has in its segments is worth something only if a later log with the same settings finds
their files. It lists the directory, and it takes the segment files that it finds there for
leftovers and replays them. So it finds every segment, whatever the earlier log has been used for
and by however many callers, if the stem has no separator in it and the directory is not the empty
path; of the settings that pass the check, some do not meet this, and with them no segment is ever
found again.

* `Replay.Outcome.ok` — a target that never fails takes in all leftovers;
* `Recovers`, `Leftovers.recovers` — what a recovery does about one of them;
* `FoundAgain`, `Housed.foundAgain_iff` — which segments are found again;
* `segments_found_again_iff` — so it is in every state that a log can be in.
-/

namespace SegmentLog

variable {σ : Type}

/-! ## Targets that never fail -/

/-- A target that never fails takes in all files, if their versions can be replayed and they can be
read. -/
theorem Replay.Outcome.ok {target : Target σ} {d : Disk} {files : List (SegmentName × Path)}
    {state state' : σ} {result : Except LogError ReplayReport}
    (h : Outcome target d files state result state') (ht : target.NeverFails)
    (hfiles : ∀ e ∈ files, e.1.isSupported = true ∧ d.Reads e.2) :
    result = .ok (d.reportOnAll files) := by
  have haccepts : ∀ records, target.offer records state = (.ok (), target.feed records state) :=
    fun records => Target.offer_accepting ht.accepting records state
  cases h with
  | unsupported he hlater =>
    rw [(hfiles _ he).1] at hlater
    cases hlater
  | refused _ _ _ hoffer =>
    rw [haccepts] at hoffer
    cases hoffer
  | @unreadable before after e _ _ _ hsplit _ hending _ =>
    have hmem : e ∈ files := by rw [hsplit]; simp
    obtain ⟨-, tail, stop, hreads⟩ := hfiles e hmem
    rw [hending] at hreads
    cases hreads
  | unflushed _ _ _ hflush =>
    have hfails := congrArg Prod.fst hflush
    rw [ht.flushes] at hfails
    cases hfails
  | taken => rfl

namespace Store

variable {s : Store} {loose : List Handle} {left : List (SegmentName × Path)}

/-! ## Recoveries -/

/-- Whether a recovery replays a segment file: whatever the target does, the file is one of the
leftovers that are replayed, and where nothing fails it is reported. -/
structure Recovers (s : Store) (e : SegmentName × Path) : Prop where
  offered : ∀ {σ : Type} (target : Target σ) (state : σ), ∃ left result t state',
    s.Leftovers left ∧ e ∈ left ∧ s.replayLeftovers target state = (result, t, state') ∧
      Replay.Outcome target s.disk left state result state'
  reported :
    (∀ left, s.Leftovers left → ∀ e ∈ left, e.1.isSupported = true ∧ s.disk.Reads e.2) →
    ∀ {σ : Type} (target : Target σ), target.NeverFails → ∀ state : σ, ∃ report t state',
      s.replayLeftovers target state = (.ok report, t, state') ∧ s.disk.reportOn e ∈ report.files

theorem Leftovers.recovers (hl : s.Leftovers left) {found : List (SegmentName × Path)}
    (hfound : segmentFiles s.disk s.settings.directory s.settings.stem = .ok found)
    (hforeign : s.foreign found = left.map (·.2)) {e : SegmentName × Path} (he : e ∈ left) :
    s.Recovers e := by
  have hne : left ≠ [] := List.ne_nil_of_mem he
  have hreplay : ∀ {σ : Type} (target : Target σ) (state : σ), ∃ result t state',
      s.replayLeftovers target state = (result, t, state') ∧
        Replay.Outcome target s.disk left state result state' := by
    intro σ target state
    rw [replayLeftovers_of_ne_nil hfound (by simpa [hforeign] using hne), hforeign]
    rcases hl.outcome_replay hne target state with
      ⟨cause, state', h, houtcome⟩ | ⟨top, state', h, -, houtcome⟩
    · rw [h]
      exact ⟨_, _, _, rfl, houtcome⟩
    · rw [h]
      exact ⟨_, _, _, rfl, houtcome⟩
  constructor
  · intro σ target state
    obtain ⟨result, t, state', h, houtcome⟩ := hreplay target state
    exact ⟨left, result, t, state', hl, he, h, houtcome⟩
  · intro hleft σ target ht state
    obtain ⟨result, t, state', h, houtcome⟩ := hreplay target state
    rw [houtcome.ok ht (hleft left hl)] at h
    refine ⟨_, t, state', h, ?_⟩
    rw [Disk.files_reportOnAll]
    exact List.mem_map_of_mem he

/-! ## Later logs -/

/-- Whether the file of a segment is found again: it is listed under the name of the segment, and
under no other, and a log with the same settings that is opened on the disk as it is recovers it. -/
structure FoundAgain (s : Store) (h : Handle) : Prop where
  listed : ∃ found, segmentFiles s.disk s.settings.directory s.settings.stem = .ok found ∧
    ∀ n, (n, (s.segment h).path) ∈ found ↔ n = (s.segment h).name
  recovered : ∀ now monitor, ∃ l m,
    Log.onDirectory s.settings now s.disk monitor = (.ok l, s.disk, m) ∧
      l.store.Recovers (s.entry h)

/-- A listed file is recovered by a log that is opened later. -/
theorem recovered_of_listed (hd : s.disk.WellFormed) (hcheck : s.settings.check = .ok ())
    {found : List (SegmentName × Path)}
    (hfound : segmentFiles s.disk s.settings.directory s.settings.stem = .ok found)
    {e : SegmentName × Path} (he : e ∈ found) (now : UInt64) (monitor : Monitor) :
    ∃ l m, Log.onDirectory s.settings now s.disk monitor = (.ok l, s.disk, m) ∧
      l.store.Recovers e := by
  have hdirectory := isDirectory_of_segmentFiles hfound
  obtain ⟨t, ht⟩ : ∃ t, onDirectory s.settings now s.disk
      { monitor with policy := s.settings.policy } = .ok t := by
    rw [onDirectory, if_pos hdirectory, hfound]
    exact ⟨_, rfl⟩
  refine ⟨{ store := t }, { monitor with policy := s.settings.policy }, ?_, ?_⟩
  · unfold Log.onDirectory
    rw [hcheck, Disk.makeDirectories_of_isDirectory hdirectory]
    dsimp only
    rw [ht]
  · -- the later log owns nothing yet
    obtain ⟨ids, he', -⟩ := onDirectory_cases ht
    have hsettings : t.settings = s.settings := by rw [he']
    have hdisk : t.disk = s.disk := by rw [he']
    have howns : ∀ p, t.owns p = false := by rw [he']; exact fun _ => rfl
    rw [← hdisk] at hd hfound
    rw [← hsettings] at hfound
    obtain ⟨left, hl, hforeign⟩ := leftovers_listed hd hfound
    refine hl.recovers hfound hforeign ((hl.mem e.1 e.2).mpr ?_)
    obtain ⟨n, q, id, hn, hp, hfind, hname⟩ := (mem_segmentFiles_iff hd hfound).mp he
    exact ⟨⟨n, hn, hp⟩, Disk.isFile_iff.mpr ⟨q, id, hfind⟩, hname, howns _⟩

/-- An active segment is found again just if the stem has no separator and the directory is not the
empty path. -/
theorem Housed.foundAgain_iff (hs : s.Housed loose) (hcheck : s.settings.check = .ok ())
    {h : Handle} (hh : h ∈ s.active) :
    s.FoundAgain h ↔ '/' ∉ s.settings.stem.toList ∧ s.settings.directory.bytes ≠ [] := by
  have hlisted := (hs.found_active hh).listed_iff hs.toFiled (hs.known_active hh)
  constructor
  · exact fun hfound => hlisted.mp hfound.listed
  · intro hplain
    obtain ⟨found, hfound, hmem⟩ := hlisted.mpr hplain
    exact ⟨⟨found, hfound, hmem⟩, fun now monitor =>
      recovered_of_listed hs.disk hcheck hfound ((hmem _).mpr rfl) now monitor⟩

/-! ## All states -/

/-- **Which segments are found again.** Take a log that was opened with any settings that pass the
check, on any disk, and any state that its store can be in after that, by the requests of one caller
or with any number of callers and recoveries, unless the numbers run out or a recovery comes upon a
spare without a place, and whatever has failed. The file of every active segment is listed under the
name of the segment, and recovered by a log that is opened later with the same settings, if the stem
has no separator in it and the directory is not the empty path. Otherwise none of them is. -/
theorem segments_found_again_iff {settings : Settings} {now : UInt64} {disk d : Disk}
    {monitor m : Monitor} {l : Log}
    (hopen : Log.onDirectory settings now disk monitor = (.ok l, d, m)) (hdisk : disk.WellFormed)
    {s : Store} (hs : l.store.Reached Scene.SparesPlaced s) {h : Handle} (hh : h ∈ s.active) :
    s.FoundAgain h ↔ '/' ∉ settings.stem.toList ∧ settings.directory.bytes ≠ [] := by
  obtain ⟨hcheck, hfurnishes, -, hstore⟩ := Log.onDirectory_cases hopen
  have hd := hfurnishes.wellFormed hdisk
  obtain ⟨loose, hhoused⟩ := hs.housed hstore hd
  obtain ⟨-, hsettings⟩ := hs.filed hstore hd
  rw [← hsettings] at hcheck ⊢
  exact hhoused.foundAgain_iff hcheck hh

/-- A plain stem in the current directory: the segment of the first append is found again. -/
theorem segment_found_again_plain :
    let settings : Settings := { directory := ⟨[Path.dot]⟩, segmentSize := 30 }
    let s := (blank settings 5).serveAll [.append (.raw [⟨1⟩] [7, 8, 9])]
    s.active = [0] ∧ s.FoundAgain 0 := by
  intro settings s
  have hactive : s.active = [0] := by decide +kernel
  refine ⟨hactive, (segments_found_again_iff
    (Log.onDirectory_blank rfl (by decide +kernel) 5 {}) (Disk.wellFormed_empty _)
    (.alone [.append (.raw [⟨1⟩] [7, 8, 9])]) ?_).mpr ⟨by decide +kernel, by decide +kernel⟩⟩
  exact hactive ▸ List.mem_singleton_self 0

/-- The check lets a stem pass that has a separator in it. The file of such a segment is in the
directory, but the list of the segment files is empty, and a later log has nothing to recover. -/
theorem segments_not_found_again :
    let settings : Settings := { directory := ⟨[Path.dot]⟩, segmentSize := 30, stem := "./x" }
    let s := (blank settings 5).serveAll [.append (.raw [⟨1⟩] [7, 8, 9])]
    settings.check = .ok () ∧
      Log.onDirectory settings 5 {} { policy := settings.policy } =
        (.ok { store := blank settings 5 }, {}, { policy := settings.policy }) ∧
      s.active = [0] ∧ s.disk.isFile (s.segment 0).path = true ∧
      segmentFiles s.disk settings.directory settings.stem = .ok [] ∧ ¬ s.FoundAgain 0 := by
  intro settings s
  have hcheck : settings.check = .ok () := by decide +kernel
  have hlisted : segmentFiles s.disk settings.directory settings.stem = .ok [] := by
    have hentries :
        s.disk.entries settings.directory = .ok [(SegmentName.ofId 5).fileName "x"] := by
      decide +kernel
    have hfile : segmentFile? s.disk settings.stem
        (settings.directory.join ⟨(SegmentName.ofId 5).fileName "x"⟩) = none := by decide +kernel
    rw [segmentFiles, hentries]
    dsimp only
    simp only [List.filterMap_cons, hfile, List.filterMap_nil, List.mergeSort_nil]
  refine ⟨hcheck, Log.onDirectory_blank rfl hcheck 5 {}, by decide +kernel, by decide +kernel,
    hlisted, fun hfound => ?_⟩
  obtain ⟨found, hl, hall⟩ := hfound.listed
  have hsettings : s.settings = settings := by decide +kernel
  rw [hsettings, hlisted, Except.ok.injEq] at hl
  subst hl
  exact List.not_mem_nil ((hall _).mpr rfl)

end Store

end SegmentLog
